import LanePadding.Proofs.AddedNodes
import LanePadding.Proofs.Storable

/-!
# Nodes added in two ways

A graph may be extended in two ways that compute the same: by one node, or by several nodes of which
the last one takes the place of the first way's node.  Analyses of the two extended graphs have the
nodes of the old graph in common.  They simulate these first, and they store the same outputs in the
end, except for the last one.  So the analyses agree if they do where the added nodes are simulated,
which is all that is left to show for a particular extension.

## What is here

* `Analysis.SameContents` — two analyses find the same in all old nodes, and in the last ones.
* `Workspace.Grows` — one extension, with the outputs and the old nodes that they lead to.
* `Pairing.Ends`, `Pairing.Agrees` — the analyses agree once the added nodes are simulated, and in
  the end.
* `Pairing.Compares` — a pairing of the two extensions.
* `Pairing.Compares.analyze_iff` — the analyses agree in the end if they do when the added nodes are
  simulated.
-/

set_option autoImplicit false

namespace LanePadding

/-! ## Analyses -/

theorem FaultRule.applying?_eq_none {w : Workspace} {x c : NodeRef}
    (h : FaultRule.of? (w.node c) x = none) :
    FaultRule.applying? w x c = none := by
  rw [applying?, h, ite_self]

/-- The analyses find the same in the nodes of a workspace, and what one finds in `n`, the other one
finds in `n'`. -/
structure Analysis.SameContents (a : Analysis) (w : Workspace) (n n' : NodeRef) (b : Analysis) :
    Prop where
  nodes : ∀ x, w.Has x → (a.padding? x).map PaddingValue.content =
    (b.padding? x).map PaddingValue.content
  last : ∃ p p', a.padding? n = some p ∧ b.padding? n' = some p' ∧ p.content = p'.content

/-- Nodes are called differently in an action. -/
def Action.redirect (σ : NodeRef → NodeRef) (b : Action) :
    Action := ⟨σ b.tensor, b.fill, b.targets.map σ⟩

namespace Engine

variable {engine : Engine} {w : Workspace} {roots : List NodeRef} {a : Analysis}

theorem padding?_of_not_mem (hw : w.WellFormed) (h : engine.analyze w roots = .ok a) {x : NodeRef}
    (hx : x ∉ a.nodes) :
    a.padding? x = none := by
  obtain ⟨r, hr⟩ := exists_simulates hw h
  exact Option.eq_none_iff_forall_ne_some.2 fun p hp => hx (hr.mem_of_padding? hp)

theorem settings_of_not_mem (hw : w.WellFormed) (h : engine.analyze w roots = .ok a) {x : NodeRef}
    (hx : x ∉ a.nodes) :
    a.settings x = [] := by
  have hended := ended_of_analyze hw h
  rw [Analysis.settings]
  split
  · rename_i hgraph
    exact hended.regular.settings_eq_nil (hended.outcome.emits x hgraph) hx
  · rfl

theorem settings_of_mem (hw : w.WellFormed) (h : engine.analyze w roots = .ok a) {x : NodeRef}
    (hx : x ∈ a.nodes) :
    a.settings x = (a.run.entry x).settings := by
  rw [Analysis.settings, if_pos ((ended_of_analyze hw h).lists.has x hx).1]

/-- Actions are for analysed consumers. -/
theorem Ended.mem_of_mem_targets (h : engine.Ended w roots a) {b : Action}
    (hb : b ∈ a.actions) {c : NodeRef} (hc : c ∈ b.targets) : c ∈ a.nodes := by
  obtain ⟨hmem, s, hs, hbs⟩ := h.exists_setting hb
  rw [hbs] at hc
  exact h.mem_of_mem_demandedBy hmem hs ((h.outcome.tidy b.tensor s hs).mem_demandedBy hc)

/-- A pointwise consumer is a target of the copies of lane 0 that it needs, and of nothing else. -/
theorem Ended.laneFix_of_mem_targets (h : engine.Ended w roots a) {b : Action}
    (hb : b ∈ a.actions) {c : NodeRef} (hc : c ∈ b.targets) (hne : c ≠ b.tensor)
    (hpoint : (w.node c).op.isPointwise = true) :
    b.tensor ∈ (w.node c).inputs ∧ w.laneFix c b.tensor ≠ [] ∧
      b.fill = .position (w.laneFixExpr c b.tensor) := by
  obtain ⟨hmem, s, hs, hbs⟩ := h.exists_setting hb
  rw [hbs] at hc
  have hdemands := (h.outcome.tidy b.tensor s hs).mem_demandedBy hc
  obtain ⟨hcmem, hinput⟩ := (h.mem_consumers hmem).1
    ((h.demanders b.tensor hmem s hs c hdemands).resolve_right fun hself => hne hself.1)
  have hposition : s.constant? = none := by
    by_contra hconst
    obtain ⟨v, hv⟩ := Option.ne_none_iff_exists'.1 hconst
    obtain ⟨i, hi⟩ := List.mem_iff_getElem?.1 hs
    obtain ⟨k, q, hclosed⟩ := h.closed b.tensor hmem
    cases hclosed with
    | shared hshape =>
      have hki : k ≤ i := by
        by_contra hik
        rw [hshape.offers.targets_eq_nil (Nat.not_le.1 hik) hi] at hc
        exact List.not_mem_nil hc
      obtain ⟨u, hneeds | ⟨hself, -⟩, -⟩ := (hshape.constants i s hki hi v hv).2.2 c hdemands
      · exact absurd hpoint (by simp [hneeds.isPointwise_eq_false])
      · exact hne hself
    | lone _ _ _ _ _ _ _ hsettings =>
      rw [hsettings, List.mem_singleton] at hs
      rw [hs] at hc
      exact List.not_mem_nil hc
  obtain ⟨e, he⟩ : ∃ e, s.fill = .position e := by
    rw [Setting.constant?] at hposition
    cases hfill : s.fill with
    | constant v => simp [hfill] at hposition
    | position e => exact ⟨e, rfl⟩
  obtain ⟨-, hfix, rfl⟩ := ((h.outcome.settled c hcmem).fixed hpoint b.tensor hinput e).1
    ⟨s, hs, he, hdemands⟩
  exact ⟨hinput, hfix, by rw [hbs, he]⟩

end Engine

/-! ## One extension -/

namespace Workspace

/-- The workspace `w` grows by the nodes `new`.  The outputs are `roots` and the last added node,
and `nodes` are the old nodes that they lead to. -/
structure Grows (w : Workspace) (g : Nat) (roots l nodes : List NodeRef) (w' : Workspace)
    (new : List NodeRef) (last : NodeRef) : Prop extends w.Adds g l w' new last where
  wellFormed : w.WellFormed ∧ w'.WellFormed
  outputs : ∀ x ∈ roots, x.graph = g ∧ w.Has x
  old : w.PartOf g (roots ++ l) nodes

namespace Grows

variable {w w' : Workspace} {g : Nat} {roots l nodes new : List NodeRef} {last c x : NodeRef}
  (h : w.Grows g roots l nodes w' new last)

include h

theorem whole : w'.PartOf g (roots ++ [last]) (nodes ++ new) :=
  h.partOf h.wellFormed.1 h.wellFormed.2 h.outputs h.old

theorem index_ne (hx : x ∈ nodes) (hc : c ∈ new) : x.index ≠ c.index :=
  Nat.ne_of_lt (h.index_lt hc (h.old.graph_eq x hx) (h.old.has x hx))

theorem not_mem_nodes (hc : c ∈ new) : c ∉ nodes := fun hmem => h.index_ne hmem hc rfl

theorem mem_nodes_of_input (hc : c ∈ nodes) (hx : x ∈ (w'.node c).inputs) : x ∈ nodes := by
  rw [(h.kept c (h.old.has c hc)).2] at hx
  exact h.old.inputs c hc x hx

theorem distinct_outputs : distinct (roots ++ [last]) = distinct roots ++ [last] := by
  have hnot : last ∉ distinct roots := fun hlast =>
    (h.behind last h.last_mem).2.2 (h.outputs last (mem_distinct.1 hlast)).2
  rw [distinct_append_singleton, insertLast, if_neg hnot]

/-- At the start, an added node is known to be read by added ones. -/
theorem entry_initial (hc : c ∈ new) :
    (Run.initial w' g (nodes ++ new) (distinct roots ++ [last])).entry c = { Entry.blank with
      consumers := new.filter fun d => c ∈ (w'.node d).inputs
      readers := (new.filter fun d => c ∈ (w'.node d).inputs).length +
        if c = last then 1 else 0 } := by
  obtain ⟨hgraph, hhas, hnot⟩ := h.behind c hc
  have hnone : nodes.filter (fun d => c ∈ (w'.node d).inputs) = [] := by
    refine List.filter_eq_nil_iff.2 fun d hd hinput => ?_
    exact h.not_mem_nodes hc (h.mem_nodes_of_input hd (of_decide_eq_true hinput))
  have houtput : c ∈ distinct roots ++ [last] ↔ c = last := by
    rw [List.mem_append, mem_distinct, List.mem_singleton]
    exact or_iff_right fun hroot => hnot (h.outputs c hroot).2
  rw [Run.entry_initial hgraph hhas, List.filter_append, hnone, List.nil_append,
    if_congr houtput rfl rfl]

theorem entry_initial_last :
    (Run.initial w' g (nodes ++ new) (distinct roots ++ [last])).entry last =
      { Entry.blank with readers := 1 } := by
  have hnone : (new.filter fun d => last ∈ (w'.node d).inputs) = [] :=
    List.filter_eq_nil_iff.2 fun d hd hinput =>
    h.last_not_mem_inputs h.wellFormed.2 hd (of_decide_eq_true hinput)
  rw [h.entry_initial h.last_mem, hnone, if_pos rfl]
  rfl

theorem index_lt_initial (hc : c ∈ new) :
    c.index < (Run.initial w' g (nodes ++ new) (distinct roots ++ [last])).entries.size := by
  obtain ⟨hgraph, hhas, -⟩ := h.behind c hc
  exact (Run.coherent_initial ..).toCounts.index_lt hgraph hhas

/-- Nobody may fault on an added node. -/
theorem sensitive_eq_nil (hsafe : ∀ d ∈ new, FaultRule.applying? w' c d = none)
    (hc : c ∈ new) {t : Run}
    (ht : t.entry c = (Run.initial w' g (nodes ++ new) (distinct roots ++ [last])).entry c) :
    t.sensitive w' c = [] := by
  rw [Run.sensitive, ht, h.entry_initial hc]
  refine List.filter_eq_nil_iff.2 fun d hd => ?_
  rw [hsafe d (List.mem_filter.1 hd).1]
  exact Bool.false_ne_true

/-- An added node is next if it reads old ones only. -/
theorem next (hc : c ∈ new) (hinputs : ∀ x ∈ (w'.node c).inputs, x ∈ nodes) :
    Run.Next w' g (nodes ++ new) nodes c := by
  obtain ⟨hgraph, hhas, -⟩ := h.behind c hc
  constructor
  case formed => exact h.wellFormed.2 c hhas
  case graph => exact hgraph
  case has => exact hhas
  case mem => exact List.mem_append_right _ hc
  case fresh => exact h.not_mem_nodes hc
  case inputs => exact hinputs
  case doneHas =>
    exact fun x hx => ⟨h.old.graph_eq x hx, (h.kept x (h.old.has x hx)).1,
      List.mem_append_left _ hx⟩
  case doneInputs => exact fun x hx y hy => h.mem_nodes_of_input hx hy

section

variable {engine : Engine} {r : Run}
  (hr : (nodes.forM (engine.step w')).Yields
    (.initial w' g (nodes ++ new) (distinct roots ++ [last])) () r)

include hr

/-- The old nodes are simulated. -/
theorem coherent : Run.Coherent w' g (nodes ++ new) (distinct roots ++ [last]) nodes r :=
  (Run.simulateFrom_spec h.wellFormed.2 (h.whole.lists h.wellFormed.2) (List.nil_append _).symm
    (Run.coherent_initial ..) (by simp) ((Engine.simulateFrom_eq_ok 0 0).2 hr)).1

/-- An added node that may not fault reads what is there for anyone. -/
theorem read_eq (hx : x ∈ nodes) (hc : c ∈ new) (hsafe : FaultRule.applying? w' x c = none) :
    r.read x (some c) = r.read x none :=
  Entry.read_of_fresh (fun _ hs =>
    (h.coherent hr).fresh (h.old.graph_eq x hx) hs (h.not_mem_nodes hc) (.inr hsafe)) x

/-- What an added node reads from old ones is of their element types. -/
theorem fits_read (hc : c ∈ new) (hinputs : ∀ x ∈ (w'.node c).inputs, x ∈ nodes)
    (hx : x ∈ (w'.node c).inputs) {p : PaddingValue} (hp : r.read x (some c) = some p) :
    p.content.Fits (w'.node x).dtype := by
  have hlists := h.whole.lists h.wellFormed.2
  have hsplit : nodes ++ new = [] ++ (nodes ++ new) := rfl
  have hinitial := Run.coherent_initial w' g (nodes ++ new) (distinct roots ++ [last])
  have hsimulates := (Engine.simulateFrom_eq_ok 0 0).2 hr
  have hshape := Run.exists_shape_of_simulateFrom h.wellFormed.2 hlists hsplit hinitial
    (by simp) hsimulates
  have hfits := Run.fits_of_simulateFrom h.wellFormed.2 hlists hsplit hinitial (by simp) hsimulates
  exact Run.fits_read_next (h.coherent hr) (h.next hc hinputs) (hshape x (hinputs x hx))
    (hfits x (hinputs x hx)) hx hp

end

end Grows

end Workspace

/-! ## Two extensions -/

namespace Pairing

/-- The analyses agree on the common nodes, and the last nodes `n` and `n'` hold the same.  Nothing
is written into them yet. -/
structure Ends (P : Pairing) (n n' : NodeRef) (r r' : Run) : Prop where
  follows : P.Follows (r, r') r r'
  lone : ∃ content, r.Lone n content ∧ r'.Lone n' content
  emissions : (∀ m ∈ r.emissions, m.tensor ∈ P.nodes) ∧ ∀ m ∈ r'.emissions, m.tensor ∈ P.nodes

/-- The analyses agree on the common nodes and on the last ones.  The actions on common nodes come
first, and if there is an action on one of the last nodes, there is one on the other. -/
structure Agrees (P : Pairing) (n n' : NodeRef) (r r' : Run) : Prop where
  mirrors : ∀ x ∈ P.nodes, (r.entry x).Mirrors P.rename (r'.entry x)
  last : ∃ p p', (r.entry n).padding = some p ∧ (r'.entry n').padding = some p' ∧
    p.content = p'.content
  actions : ∃ (common : List Action) (fill : Option Scalar), (∀ b ∈ common, b.tensor ∈ P.nodes) ∧
    r.actions = common ++ fill.toList.map (fun v => ⟨n, .constant v, []⟩) ∧
    r'.actions = common.map (Action.retarget P.rename) ++ fill.toList.map fun v =>
      ⟨n', .constant v, []⟩

variable {P : Pairing} {n n' : NodeRef} {r r' s s' : Run}

/-- While common nodes are dealt with, the last ones stay as they are. -/
theorem Ends.of_follows (h : P.Ends n n' r r') (hs : P.Follows (r, r') s s')
    (hn : ∀ x ∈ P.nodes, x.index ≠ n.index) (hn' : ∀ x ∈ P.nodes, x.index ≠ n'.index) :
    P.Ends n n' s s' := by
  obtain ⟨content, hlone, hlone'⟩ := h.lone
  exact ⟨hs.rebase, ⟨content, hlone.congr hs.left.size (hs.left.entry n hn),
    hlone'.congr hs.right.size (hs.right.entry n' hn')⟩, hs.left.tensor_mem h.emissions.1,
    hs.right.tensor_mem h.emissions.2⟩

/-- The last nodes are stored. -/
theorem Ends.agrees (h : P.Ends n n' r r') (hn : ∀ x ∈ P.nodes, x.index ≠ n.index)
    (hn' : ∀ x ∈ P.nodes, x.index ≠ n'.index) (fill : Option Scalar) :
    P.Agrees n n' (r.storeFill n fill) (r'.storeFill n' fill) := by
  obtain ⟨content, hlone, hlone'⟩ := h.lone
  have hothers : ∀ {t : Run} {m : NodeRef}, t.Lone m content → (∀ x ∈ P.nodes, x.index ≠ m.index) →
      ∀ x ∈ P.nodes, (t.storeFill m fill).entry x = t.entry x := by
    intro t m ht hm x hx
    cases fill with
    | none => rfl
    | some v => rw [Run.storeFill, Run.entry_write ht.size, if_neg (hm x hx).symm]
  have hpadding : ∀ {t : Run} {m : NodeRef}, t.Lone m content →
      ((t.storeFill m fill).entry m).padding = (t.entry m).padding := by
    intro t m ht
    cases fill with
    | none => rfl
    | some v => rw [Run.storeFill, ht.entry_write]
  constructor
  case mirrors =>
    intro x hx
    rw [hothers hlone hn x hx, hothers hlone' hn' x hx]
    exact h.follows.mirrors x hx
  case last =>
    obtain ⟨p, hp, hcontent⟩ := hlone.padding
    obtain ⟨p', hp', hcontent'⟩ := hlone'.padding
    exact ⟨p, p', (hpadding hlone).trans hp, (hpadding hlone').trans hp',
      hcontent.trans hcontent'.symm⟩
  case actions =>
    have hmem : ∀ {t : Run}, (∀ m ∈ t.emissions, m.tensor ∈ P.nodes) →
        ∀ b ∈ t.actions, b.tensor ∈ P.nodes := by
      intro t ht b hb
      obtain ⟨m, hm, hb⟩ := List.mem_filterMap.1 (t.actions_eq ▸ hb)
      obtain ⟨s, -, rfl⟩ := Option.map_eq_some_iff.1 hb
      exact ht m hm
    have hsame := h.follows.actions_eq
    rw [List.filter_eq_self.2 fun b hb => decide_eq_true (hmem h.emissions.1 b hb),
      List.filter_eq_self.2 fun b hb => decide_eq_true (hmem h.emissions.2 b hb)] at hsame
    refine ⟨r.actions, fill, hmem h.emissions.1, ?_, ?_⟩
    · exact Run.actions_storeFill hlone (fun m hm => (hn _ (h.emissions.1 m hm)).symm) fill
    · rw [Run.actions_storeFill hlone' (fun m hm => (hn' _ (h.emissions.2 m hm)).symm) fill, hsame]

/-- The actions are the same up to the names of consumers, and `n'` takes the place of `n`. -/
theorem Agrees.actions_eq {f : Action → Action} (h : P.Agrees n n' r r')
    (hlast : ∀ v, f ⟨n, .constant v, []⟩ = ⟨n', .constant v, []⟩)
    (hcommon : ∀ e ∈ r.actions, e.tensor ∈ P.nodes → f e = e.retarget P.rename) :
    r'.actions = r.actions.map f := by
  obtain ⟨common, fill, hmem, hactions, hactions'⟩ := h.actions
  have hold : common.map f = common.map (Action.retarget P.rename) :=
    List.map_congr_left fun e he => hcommon e (hactions ▸ List.mem_append_left _ he) (hmem e he)
  rw [hactions, hactions', List.map_append, hold, List.map_map]
  simp only [Function.comp_def, hlast]

/-- **The outputs are stored**, common ones first. -/
theorem leads_requireOutputs (engine : Engine) {outputs : List NodeRef}
    (houtputs : ∀ x ∈ outputs, x ∈ P.nodes ∧ P.counted x) (hn : ∀ x ∈ P.nodes, x.index ≠ n.index)
    (hn' : ∀ x ∈ P.nodes, x.index ≠ n'.index)
    (hdtype : (P.right.node n').dtype = (P.left.node n).dtype)
    (haxes : (P.right.node n').axes = (P.left.node n).axes) :
    RunM.Leads (P.Ends n n') (P.Agrees n n') (RunM.requireOutputs P.left engine (outputs ++ [n]))
      (RunM.requireOutputs P.right engine (outputs ++ [n'])) := by
  simp only [RunM.requireOutputs]
  split
  · have hcommon : RunM.Leads (P.Ends n n') (P.Ends n n') (outputs.forM (RunM.requireOutput P.left))
        (outputs.forM (RunM.requireOutput P.right)) := by
      intro r r' hr
      have hsteps : RunM.Lockstep (P.Follows (r, r')) (outputs.forM (RunM.requireOutput P.left))
          ((outputs.map id).forM (RunM.requireOutput P.right)) fun _ _ => True :=
        RunM.lockstep_forM fun x hx => P.lockstep_requireOutput (houtputs x hx).1 (houtputs x hx).2
      rw [List.map_id] at hsteps
      rcases hsteps r r' hr.follows with ⟨_, s, _, s', hs, hs', -, hfollows⟩ | hfail
      · exact .inl ⟨s, s', hs, hs', hr.of_follows hfollows hn hn'⟩
      · exact .inr hfail
    have hlast : RunM.Leads (P.Ends n n') (P.Agrees n n') (RunM.requireOutput P.left n)
        (RunM.requireOutput P.right n') := by
      intro r r' hr
      obtain ⟨content, hlone, hlone'⟩ := hr.lone
      rcases Run.exists_store_of_lone hlone hlone' hdtype haxes with ⟨fill, hs, hs'⟩ | hfail
      · exact .inl ⟨_, _, hs, hs', hr.agrees hn hn' fill⟩
      · exact .inr hfail
    simpa only [List.forM_eq_forM, List.forM_append, List.forM_cons, List.forM_nil,
      bind_pure_unit] using hcommon.bind hlast
  · intro r r' hr
    exact .inl ⟨r, r', RunM.yields_pure.2 ⟨rfl, rfl⟩, RunM.yields_pure.2 ⟨rfl, rfl⟩,
      hr.agrees hn hn' none⟩

/-- The nodes that two extensions of a workspace have in common. -/
def ofAdds {w w₁ w₂ : Workspace} {g : Nat} {roots l nodes new₁ new₂ : List NodeRef}
    {last₁ last₂ : NodeRef} (h₁ : w.Adds g l w₁ new₁ last₁) (h₂ : w.Adds g l w₂ new₂ last₂)
    (hnodes : w.PartOf g (roots ++ l) nodes) (rename : NodeRef → NodeRef)
    (hinjective : Function.Injective rename) (hfixed : ∀ x, w.Has x → rename x = x)
    (counted : NodeRef → Prop) (hcounted : ∀ n ∈ nodes, ∀ x ∈ (w.node n).inputs, counted x) :
    Pairing where
  left := w₁
  right := w₂
  graph := g
  nodes := nodes
  rename := rename
  counted := counted
  injective := hinjective
  fixed x hx := hfixed x (hnodes.has x hx)
  graph_eq := hnodes.graph_eq
  node_eq x hx := by rw [(h₁.kept x (hnodes.has x hx)).2, (h₂.kept x (hnodes.has x hx)).2]
  inputs n hn x hx := by
    rw [(h₁.kept n (hnodes.has n hn)).2] at hx
    exact ⟨hnodes.inputs n hn x hx, hcounted n hn x hx⟩

/-- The pairing compares two extensions of the workspace `w`: by the node `n`, and by the nodes
`new`, of which `n'` is the last one.  Both read the nodes `l`, and neither may fault. -/
structure Compares (P : Pairing) (w : Workspace) (roots l : List NodeRef) (n : NodeRef)
    (new : List NodeRef) (n' : NodeRef) : Prop where
  wellFormed : w.WellFormed ∧ P.left.WellFormed ∧ P.right.WellFormed
  outputs : ∀ x ∈ roots, x.graph = P.graph ∧ w.Has x ∧ P.counted x
  nodes : w.PartOf P.graph (roots ++ l) P.nodes
  left : w.Adds P.graph l P.left [n] n
  right : w.Adds P.graph l P.right new n'
  safe : ∀ x, FaultRule.applying? P.left x n = none ∧
    ∀ c ∈ new, FaultRule.applying? P.right x c = none
  /-- A tensor without other readers has as many new ones on either side. -/
  shared : ∀ x ∈ P.nodes, P.counted x → ((∃ c ∈ P.nodes, x ∈ (P.left.node c).inputs) ∨ x ∈ roots) ∨
    (new.filter fun c => x ∈ (P.right.node c).inputs).length =
      if x ∈ (P.left.node n).inputs then 1 else 0
  dtype : (P.right.node n').dtype = (P.left.node n).dtype
  axes : (P.right.node n').axes = (P.left.node n).axes

theorem compares_ofAdds {w w₁ w₂ : Workspace} {g : Nat} {roots l nodes new : List NodeRef}
    {n n' : NodeRef} {h₁ : w.Adds g l w₁ [n] n} {h₂ : w.Adds g l w₂ new n'}
    {hnodes : w.PartOf g (roots ++ l) nodes} {rename : NodeRef → NodeRef}
    {hinjective : Function.Injective rename} {hfixed : ∀ x, w.Has x → rename x = x}
    {counted : NodeRef → Prop} {hcounted : ∀ n ∈ nodes, ∀ x ∈ (w.node n).inputs, counted x}
    (hw : w.WellFormed) (hw₁ : w₁.WellFormed) (hw₂ : w₂.WellFormed)
    (hroots : ∀ x ∈ roots, x.graph = g ∧ w.Has x ∧ counted x)
    (hsafe : ∀ x, FaultRule.of? (w₁.node n) x = none ∧
      ∀ c ∈ new, FaultRule.of? (w₂.node c) x = none)
    (hshared : ∀ x ∈ nodes, counted x → ((∃ c ∈ nodes, x ∈ (w.node c).inputs) ∨ x ∈ roots) ∨
      (new.filter fun c => x ∈ (w₂.node c).inputs).length = if x ∈ (w₁.node n).inputs then 1 else 0)
    (hdtype : (w₂.node n').dtype = (w₁.node n).dtype)
    (haxes : (w₂.node n').axes = (w₁.node n).axes) :
    (ofAdds h₁ h₂ hnodes rename hinjective hfixed counted hcounted).Compares w roots l
      n new n' where
  wellFormed := ⟨hw, hw₁, hw₂⟩
  outputs := hroots
  nodes := hnodes
  left := h₁
  right := h₂
  safe x := ⟨FaultRule.applying?_eq_none (hsafe x).1, fun c hc => FaultRule.applying?_eq_none
    ((hsafe x).2 c hc)⟩
  shared x hx hcount := by
    refine (hshared x hx hcount).imp_left (Or.imp_left ?_)
    rintro ⟨c, hc, hinput⟩
    refine ⟨c, hc, ?_⟩
    show x ∈ (w₁.node c).inputs
    rwa [(h₁.kept c (hnodes.has c hc)).2]
  dtype := hdtype
  axes := haxes

/-- Both analyses have simulated the common nodes. -/
structure Prepared (P : Pairing) (engine : Engine) (roots : List NodeRef) (n : NodeRef)
    (new : List NodeRef) (n' : NodeRef) (r r' : Run) : Prop where
  follows : P.Follows (.initial P.left P.graph (P.nodes ++ [n]) (distinct roots ++ [n]),
    .initial P.right P.graph (P.nodes ++ new) (distinct roots ++ [n'])) r r'
  left : (P.nodes.forM (engine.step P.left)).Yields
    (.initial P.left P.graph (P.nodes ++ [n]) (distinct roots ++ [n])) () r
  right : (P.nodes.forM (engine.step P.right)).Yields
    (.initial P.right P.graph (P.nodes ++ new) (distinct roots ++ [n'])) () r'

/-- Nothing is known of the node `n` and of the nodes in `todo`, which are still to be simulated. -/
structure Awaits (P : Pairing) (roots : List NodeRef) (n : NodeRef) (new : List NodeRef)
    (n' : NodeRef) (todo : List NodeRef) (r r' : Run) : Prop where
  follows : P.Follows (r, r') r r'
  left : r.entry n = (Run.initial P.left P.graph (P.nodes ++ [n]) (distinct roots ++ [n])).entry n ∧
    n.index < r.entries.size
  right : ∀ c ∈ todo,
    r'.entry c = (Run.initial P.right P.graph (P.nodes ++ new) (distinct roots ++ [n'])).entry c ∧
      c.index < r'.entries.size
  emissions : (∀ m ∈ r.emissions, m.tensor ∈ P.nodes) ∧ ∀ m ∈ r'.emissions, m.tensor ∈ P.nodes

/-- Nothing is found on the left, and nothing in the first added node on the right. -/
theorem fails_pair {engine : Engine} {c : NodeRef} (hfail : (RunM.simulate P.left engine n).Fails r)
    (hfail' : (RunM.simulate P.right engine c).Fails r') :
    (engine.step P.left n).Fails r ∧ ([c, n'].forM (engine.step P.right)).Fails r' := by
  simp only [List.forM_eq_forM, List.forM_cons, List.forM_nil, bind_pure_unit]
  exact ⟨Engine.fails_step_of_simulate hfail, (Engine.fails_step_of_simulate hfail').bind _⟩

namespace Compares

variable {w : Workspace} {roots l new : List NodeRef} (h : P.Compares w roots l n new n')
  {engine : Engine}

include h

theorem grows_left : w.Grows P.graph roots l P.nodes P.left [n] n where
  toAdds := h.left
  wellFormed := ⟨h.wellFormed.1, h.wellFormed.2.1⟩
  outputs x hx := ⟨(h.outputs x hx).1, (h.outputs x hx).2.1⟩
  old := h.nodes

theorem grows_right : w.Grows P.graph roots l P.nodes P.right new n' where
  toAdds := h.right
  wellFormed := ⟨h.wellFormed.1, h.wellFormed.2.2⟩
  outputs x hx := ⟨(h.outputs x hx).1, (h.outputs x hx).2.1⟩
  old := h.nodes

theorem index_ne_left {x : NodeRef} (hx : x ∈ P.nodes) : x.index ≠ n.index :=
  h.grows_left.index_ne hx (List.mem_singleton_self n)

theorem index_ne_right {x c : NodeRef} (hx : x ∈ P.nodes) (hc : c ∈ new) : x.index ≠ c.index :=
  h.grows_right.index_ne hx hc

/-- Common nodes are read by the new nodes on either side or on neither one. -/
theorem reads_new_iff {x : NodeRef} (hx : x ∈ P.nodes) :
    x ∈ (P.left.node n).inputs ↔
      0 < (new.filter fun c => x ∈ (P.right.node c).inputs).length := by
  rw [List.length_pos_iff_exists_mem]
  constructor
  · intro hinput
    rcases h.left.inputs n (by simp) x hinput with hmem | hmem
    · exact absurd hx (h.grows_left.not_mem_nodes hmem)
    · obtain ⟨-, -, c, hc, hinput⟩ := h.right.reads x hmem
      exact ⟨c, List.mem_filter.2 ⟨hc, decide_eq_true hinput⟩⟩
  · rintro ⟨c, hc⟩
    obtain ⟨hc, hinput⟩ := List.mem_filter.1 hc
    rcases h.right.inputs c hc x (of_decide_eq_true hinput) with hmem | hmem
    · exact absurd hx (h.grows_right.not_mem_nodes hmem)
    · obtain ⟨-, -, c', hc', hinput⟩ := h.left.reads x hmem
      exact List.mem_singleton.1 hc' ▸ hinput

/-- A common node that counts has several readers on either side or on neither one. -/
theorem shared_iff {x : NodeRef} (hx : x ∈ P.nodes) (hcounted : P.counted x) :
    1 < ((P.nodes ++ new).filter fun c => x ∈ (P.right.node c).inputs).length +
        (if x ∈ distinct roots ++ [n'] then 1 else 0) ↔
      1 < ((P.nodes ++ [n]).filter fun c => x ∈ (P.left.node c).inputs).length +
        if x ∈ distinct roots ++ [n] then 1 else 0 := by
  have hread := h.reads_new_iff hx
  have hsame : P.nodes.filter (fun c => x ∈ (P.right.node c).inputs) =
      P.nodes.filter fun c => x ∈ (P.left.node c).inputs :=
    List.filter_congr fun c hc => by rw [P.node_eq c hc]
  have hcount : ([n].filter fun c => x ∈ (P.left.node c).inputs).length =
      if x ∈ (P.left.node n).inputs then 1 else 0 := by
    by_cases hinput : x ∈ (P.left.node n).inputs <;> simp [hinput]
  have hn : x ≠ n := fun heq => h.index_ne_left hx (heq ▸ rfl)
  have hn' : x ≠ n' := fun heq => h.index_ne_right hx h.right.last_mem (heq ▸ rfl)
  simp only [List.filter_append, List.length_append, hsame, hcount, List.mem_append,
    List.mem_singleton, hn, hn', or_false, mem_distinct]
  rcases h.shared x hx hcounted with hold | hequal
  · -- one old reader is enough for the number of new ones not to matter
    have hpos : 0 < (P.nodes.filter fun c => x ∈ (P.left.node c).inputs).length +
        if x ∈ roots then 1 else 0 := by
      rcases hold with ⟨c, hc, hinput⟩ | hroot
      · have hmem : c ∈ P.nodes.filter fun c => x ∈ (P.left.node c).inputs :=
          List.mem_filter.2 ⟨hc, decide_eq_true hinput⟩
        have := List.length_pos_of_mem hmem
        omega
      · rw [if_pos hroot]
        omega
    by_cases hinput : x ∈ (P.left.node n).inputs
    · have := hread.1 hinput
      rw [if_pos hinput]
      omega
    · have := mt hread.2 hinput
      rw [if_neg hinput]
      omega
  · rw [hequal]

/-- **At the start**, the common nodes have other readers in both analyses or in neither. -/
theorem follows_initial :
    P.Follows (.initial P.left P.graph (P.nodes ++ [n]) (distinct roots ++ [n]),
      .initial P.right P.graph (P.nodes ++ new) (distinct roots ++ [n']))
      (.initial P.left P.graph (P.nodes ++ [n]) (distinct roots ++ [n]))
      (.initial P.right P.graph (P.nodes ++ new) (distinct roots ++ [n'])) := by
  have hcommon : ∀ {added : List NodeRef}, (∀ c ∈ added, c ∉ P.nodes) →
      (P.nodes ++ added).filter (· ∈ P.nodes) = P.nodes := by
    intro added hadded
    rw [List.filter_append, List.filter_eq_self.2 fun x hx => decide_eq_true hx,
      List.filter_eq_nil_iff.2 fun x hx => by simpa using hadded x hx, List.append_nil]
  have hleft := hcommon fun c hc => h.grows_left.not_mem_nodes hc
  have hright := hcommon fun c hc => h.grows_right.not_mem_nodes hc
  refine P.follows_initial ⟨hleft, fun c hc hnot x _ _ => ?_⟩ ⟨hright, fun c hc hnot x _ _ => ?_⟩
    (fun x hx => ⟨(h.left.kept x (h.nodes.has x hx)).1, (h.right.kept x (h.nodes.has x hx)).1⟩)
    fun x hx hcounted => h.shared_iff hx hcounted
  · obtain rfl := List.mem_singleton.1 ((List.mem_append.1 hc).resolve_left hnot)
    exact (h.safe x).1
  · exact (h.safe x).2 c ((List.mem_append.1 hc).resolve_left hnot)

/-- **Before they are simulated, added nodes read alike.** -/
theorem glance_eq {r r' : Run} (hr : P.Prepared engine roots n new n' r r') {c : NodeRef}
    (hc : c ∈ new) {a : Operand} (ha : ∀ x, a = .node x → x ∈ P.nodes) :
    r'.glance c a = (r.glance n a).map (PaddingValue.retarget P.rename) := by
  cases a with
  | scalar v => rfl
  | symbol name d => rfl
  | node x =>
    have hx := ha x rfl
    rw [Run.glance, Run.glance, h.grows_left.read_eq hr.left hx
      (List.mem_singleton_self n) (h.safe x).1,
      h.grows_right.read_eq hr.right hx hc ((h.safe x).2 c hc)]
    exact hr.follows.read_eq hx none

/-- **Before they are simulated, added nodes compare alike.** -/
theorem compared_iff {r r' : Run} (hr : P.Prepared engine roots n new n' r r') {c : NodeRef}
    (hc : c ∈ new) {a b : Operand} (ha : ∀ x, a = .node x → x ∈ P.nodes)
    (hb : ∀ x, b = .node x → x ∈ P.nodes) {platform : Platform} {mode : CompareMode}
    {p : PaddingValue} :
    r'.Compared platform mode c a b p ↔ r.Compared platform mode n a b p := by
  rw [Run.Compared, Run.Compared, h.glance_eq hr hc ha, h.glance_eq hr hc hb]
  constructor
  · rintro ⟨_, _, hleft, hright, hp⟩
    obtain ⟨pa, hpa, rfl⟩ := Option.map_eq_some_iff.1 hleft
    obtain ⟨pb, hpb, rfl⟩ := Option.map_eq_some_iff.1 hright
    exact ⟨pa, pb, hpa, hpb, hp⟩
  · rintro ⟨pa, pb, hpa, hpb, hp⟩
    exact ⟨_, _, Option.map_eq_some_iff.2 ⟨pa, hpa, rfl⟩, Option.map_eq_some_iff.2
      ⟨pb, hpb, rfl⟩, hp⟩

/-- At first, all added nodes are to be simulated. -/
theorem awaits_of_prepared {r r' : Run} (hr : P.Prepared engine roots n new n' r r') :
    P.Awaits roots n new n' new r r' where
  follows := hr.follows.rebase
  left := ⟨hr.follows.left.entry n fun _ hx => h.index_ne_left hx, by
    rw [hr.follows.left.size]
    exact h.grows_left.index_lt_initial (List.mem_singleton_self n)⟩
  right c hc := ⟨hr.follows.right.entry c fun _ hx => h.index_ne_right hx hc, by
    rw [hr.follows.right.size]
    exact h.grows_right.index_lt_initial hc⟩
  emissions := ⟨hr.follows.left.tensor_mem fun m hm => absurd hm List.not_mem_nil,
    hr.follows.right.tensor_mem fun m hm => absurd hm List.not_mem_nil⟩

/-- Steps on common nodes leave the added ones alone. -/
theorem awaits_of_follows {todo : List NodeRef} {r r' s s' : Run}
    (hr : P.Awaits roots n new n' todo r r') (htodo : ∀ c ∈ todo, c ∈ new)
    (hs : P.Follows (r, r') s s') : P.Awaits roots n new n' todo s s' where
  follows := hs.rebase
  left := ⟨(hs.left.entry n fun _ hx => h.index_ne_left hx).trans hr.left.1,
    hs.left.size ▸ hr.left.2⟩
  right c hc := ⟨(hs.right.entry c fun _ hx => h.index_ne_right hx (htodo c hc)).trans
    (hr.right c hc).1, hs.right.size ▸ (hr.right c hc).2⟩
  emissions := ⟨hs.left.tensor_mem hr.emissions.1, hs.right.tensor_mem hr.emissions.2⟩

/-- An added node is found to hold something. -/
theorem awaits_store {todo : List NodeRef} {c : NodeRef} {r r' : Run}
    (hr : P.Awaits roots n new n' (c :: todo) r r') (hc : c ∈ new)
    (htodo : ∀ d ∈ todo, c.index ≠ d.index) (content : Content) :
    P.Awaits roots n new n' todo r (r'.store c content) := by
  have hsize := (hr.right c (by simp)).2
  refine ⟨hr.follows.of_spares (.refl _ []) (Run.spares_store hsize content) (by simp) ?_, hr.left,
    fun d hd => ?_, hr.emissions⟩
  · exact fun x hx y hy => List.mem_singleton.1 hx ▸ (h.index_ne_right hy hc).symm
  · obtain ⟨hentry, hlt⟩ := hr.right d (List.mem_cons_of_mem _ hd)
    rw [Run.entry_store hsize, if_neg (htodo d hd), Run.size_store]
    exact ⟨hentry, hlt⟩

/-- What an added node was found to hold is read from it. -/
theorem read_store {todo : List NodeRef} {c : NodeRef} {r r' : Run}
    (hr : P.Awaits roots n new n' todo r r') (hc : c ∈ new) (htodo : c ∈ todo) (content : Content)
    (consumer : Option NodeRef) :
    (r'.store c content).read c consumer = some ⟨content, some c, []⟩ := by
  obtain ⟨hentry, hsize⟩ := hr.right c htodo
  rw [h.grows_right.entry_initial hc] at hentry
  rw [Run.read, Run.entry_store hsize, if_pos rfl, hentry]
  cases consumer <;> rfl

/-- The last nodes are found to hold the same. -/
theorem ends_store {todo : List NodeRef} {r r' : Run} (hr : P.Awaits roots n new n' todo r r')
    (hn' : n' ∈ todo) (content : Content) :
    P.Ends n n' (r.store n content) (r'.store n' content) := by
  obtain ⟨hentry, hsize⟩ := hr.left
  obtain ⟨hentry', hsize'⟩ := hr.right n' hn'
  rw [h.grows_left.entry_initial_last] at hentry
  rw [h.grows_right.entry_initial_last] at hentry'
  refine ⟨hr.follows.of_spares (Run.spares_store hsize content)
    (Run.spares_store hsize' content) ?_ ?_, ⟨content, ?_, ?_⟩, hr.emissions⟩
  · exact fun x hx y hy => List.mem_singleton.1 hx ▸ (h.index_ne_left hy).symm
  · exact fun x hx y hy => List.mem_singleton.1 hx ▸ (h.index_ne_right hy h.right.last_mem).symm
  · exact Run.lone_store hsize (by rw [hentry]) (by rw [hentry]; rfl) content
  · exact Run.lone_store hsize' (by rw [hentry']) (by rw [hentry']; rfl) content

/-- An added node is simulated on the right, and nobody may fault on it. -/
theorem yields_step_right {todo : List NodeRef} {c : NodeRef} {r t t' : Run} {p : PaddingValue}
    (ht : P.Awaits roots n new n' todo t t') (hc : c ∈ new) (htodo : c ∈ todo)
    (hsimulate : (RunM.simulate P.right engine c).Yields r p t')
    (hfits : p.content.Fits (P.right.node c).dtype) :
    (engine.step P.right c).Yields r () (t'.store c p.content) :=
  Engine.yields_step_of_simulate hsimulate hfits (ht.right c htodo).2
    (h.grows_right.sensitive_eq_nil (h.safe c).2 hc (ht.right c htodo).1)

/-- **The last nodes are simulated.** -/
theorem leads_last {todo : List NodeRef} {r r' : Run} (hn' : n' ∈ todo)
    (hsimulate : (∃ p t p' t', (RunM.simulate P.left engine n).Yields r p t ∧
        (RunM.simulate P.right engine n').Yields r' p' t' ∧ p'.content = p.content ∧
        P.Awaits roots n new n' todo t t') ∨
      (RunM.simulate P.left engine n).Fails r ∧ (RunM.simulate P.right engine n').Fails r') :
    (∃ s s', (engine.step P.left n).Yields r () s ∧ (engine.step P.right n').Yields r' () s' ∧
      P.Ends n n' s s') ∨
      (engine.step P.left n).Fails r ∧ (engine.step P.right n').Fails r' := by
  rcases hsimulate with ⟨p, t, p', t', hp, hp', hcontent, hawaits⟩ | ⟨hfail, hfail'⟩
  · by_cases hfits : p.content.Fits (P.left.node n).dtype
    · have hfits' : p'.content.Fits (P.right.node n').dtype := by rwa [hcontent, h.dtype]
      have hquiet : t.sensitive P.left n = [] := by
        rw [Run.sensitive, hawaits.left.1, h.grows_left.entry_initial_last]
        rfl
      refine .inl ⟨_, _, Engine.yields_step_of_simulate hp hfits hawaits.left.2 hquiet,
        h.yields_step_right hawaits h.right.last_mem hn' hp' hfits', ?_⟩
      rw [hcontent]
      exact h.ends_store hawaits hn' p.content
    · have hfits' : ¬p'.content.Fits (P.right.node n').dtype := by rwa [hcontent, h.dtype]
      exact .inr ⟨Engine.fails_step_of_not_fits hp hfits, Engine.fails_step_of_not_fits hp' hfits'⟩
  · exact .inr ⟨Engine.fails_step_of_simulate hfail, Engine.fails_step_of_simulate hfail'⟩

/-- Two nodes are added on the right.  The first one is simulated, and then the last ones are. -/
theorem leads_pair {c : NodeRef} {r r' q : Run} (hstep : (engine.step P.right c).Yields r' () q)
    (hsimulate : (∃ p t p' t', (RunM.simulate P.left engine n).Yields r p t ∧
        (RunM.simulate P.right engine n').Yields q p' t' ∧ p'.content = p.content ∧
        P.Awaits roots n new n' [n'] t t') ∨
      (RunM.simulate P.left engine n).Fails r ∧ (RunM.simulate P.right engine n').Fails q) :
    (∃ s s', (engine.step P.left n).Yields r () s ∧
      ([c, n'].forM (engine.step P.right)).Yields r' () s' ∧
        P.Ends n n' s s') ∨
      (engine.step P.left n).Fails r ∧ ([c, n'].forM (engine.step P.right)).Fails r' := by
  simp only [List.forM_eq_forM, List.forM_cons, List.forM_nil, bind_pure_unit]
  rcases h.leads_last (List.mem_singleton_self n') hsimulate with
    ⟨s, s', hs, hs', hends⟩ | ⟨hfail, hfail'⟩
  · exact .inl ⟨s, s', hs, RunM.yields_bind.2 ⟨_, _, hstep, hs'⟩, hends⟩
  · exact .inr ⟨hfail, hstep.fails_bind hfail'⟩

/-- **The analyses agree in the end** if they do once the added nodes are simulated. -/
theorem leads_process
    (hlast : RunM.Leads (P.Prepared engine roots n new n') (P.Ends n n') (engine.step P.left n)
      (new.forM (engine.step P.right))) :
    RunM.Leads (fun r r' => r = .initial P.left P.graph (P.nodes ++ [n]) (distinct roots ++ [n]) ∧
        r' = .initial P.right P.graph (P.nodes ++ new) (distinct roots ++ [n'])) (P.Agrees n n')
      (engine.process P.left (P.nodes ++ [n]) (distinct roots ++ [n]))
      (engine.process P.right (P.nodes ++ new) (distinct roots ++ [n'])) := by
  have hcommon : RunM.Leads
      (fun r r' => r = .initial P.left P.graph (P.nodes ++ [n]) (distinct roots ++ [n]) ∧
        r' = .initial P.right P.graph (P.nodes ++ new) (distinct roots ++ [n']))
        (P.Prepared engine roots n new n')
      (P.nodes.forM (engine.step P.left)) (P.nodes.forM (engine.step P.right)) := by
    rintro r r' ⟨rfl, rfl⟩
    rcases P.lockstep_steps engine (fun _ hx => hx) _ _ h.follows_initial with
      ⟨_, s, _, s', hs, hs', -, hfollows⟩ | hfail
    · exact .inl ⟨s, s', hs, hs', hfollows, hs, hs'⟩
    · exact .inr hfail
  have houtputs : ∀ x ∈ distinct roots, x ∈ P.nodes ∧ P.counted x := fun x hx =>
    ⟨(h.nodes.mem_iff x).2 (.root (List.mem_append_left _ (mem_distinct.1 hx))),
      (h.outputs x (mem_distinct.1 hx)).2.2⟩
  have hstore := P.leads_requireOutputs engine houtputs (fun x hx => h.index_ne_left hx)
    (fun x hx => h.index_ne_right hx h.right.last_mem) h.dtype h.axes
  have hall := (hcommon.bind hlast).bind hstore
  simpa only [Engine.process, List.forM_eq_forM, List.forM_append, List.forM_cons, List.forM_nil,
    bind_pure_unit, bind_assoc] using hall

/-- **The two extensions are analysed alike.** -/
theorem analyze_iff
    (hlast : RunM.Leads (P.Prepared engine roots n new n') (P.Ends n n') (engine.step P.left n)
      (new.forM (engine.step P.right))) :
    ((∃ a, engine.analyze P.left (roots ++ [n]) = .ok a) ↔
      ∃ b, engine.analyze P.right (roots ++ [n']) = .ok b) ∧
      ∀ a b, engine.analyze P.left (roots ++ [n]) = .ok a →
      engine.analyze P.right (roots ++ [n']) = .ok b →
        P.Agrees n n' a.run b.run := by
  have hanalyze := fun a => @Workspace.PartOf.analyze_iff _ _ _ _ h.grows_left.whole
    (by simp) engine a
  have hanalyze' := fun b => @Workspace.PartOf.analyze_iff _ _ _ _ h.grows_right.whole
    (by simp) engine b
  rw [h.grows_left.distinct_outputs] at hanalyze
  rw [h.grows_right.distinct_outputs] at hanalyze'
  simp only [hanalyze, hanalyze']
  rcases h.leads_process hlast _ _ ⟨rfl, rfl⟩ with ⟨s, s', hs, hs', hagrees⟩ | ⟨hfail, hfail'⟩
  · refine ⟨iff_of_true ⟨⟨_, _, s⟩, rfl, rfl, hs⟩ ⟨⟨_, _, s'⟩, rfl, rfl, hs'⟩, fun a b ha hb => ?_⟩
    rw [(hs.unique ha.2.2).2, (hs'.unique hb.2.2).2]
    exact hagrees
  · refine ⟨iff_of_false ?_ ?_, fun a b ha => absurd ha.2.2 (hfail () a.run)⟩
    · rintro ⟨a, ha⟩
      exact hfail () a.run ha.2.2
    · rintro ⟨b, hb⟩
      exact hfail' () b.run hb.2.2

/-- An old node is analysed in both extensions or in none. -/
theorem mem_nodes_iff {a b : Analysis} (ha : engine.analyze P.left (roots ++ [n]) = .ok a)
    (hb : engine.analyze P.right (roots ++ [n']) = .ok b) {x : NodeRef} (hx : w.Has x) :
    (x ∈ a.nodes ↔ x ∈ P.nodes) ∧ (x ∈ b.nodes ↔ x ∈ P.nodes) := by
  rw [((h.grows_left.whole.analyze_iff (by simp)).1 ha).2.1,
    ((h.grows_right.whole.analyze_iff (by simp)).1 hb).2.1, List.mem_append, List.mem_append]
  exact ⟨or_iff_left fun hnew => (h.left.behind x hnew).2.2 hx, or_iff_left fun hnew =>
    (h.right.behind x hnew).2.2 hx⟩

/-- **The two analyses find the same**, in all old nodes and in the last ones. -/
theorem sameContents {a b : Analysis} (ha : engine.analyze P.left (roots ++ [n]) = .ok a)
    (hb : engine.analyze P.right (roots ++ [n']) = .ok b) (hagrees : P.Agrees n n' a.run b.run) :
    a.SameContents w n n' b := by
  obtain ⟨-, hwf, hwf'⟩ := h.wellFormed
  constructor
  case nodes =>
    intro x hx
    obtain ⟨hiff, hiff'⟩ := h.mem_nodes_iff ha hb hx
    by_cases hmem : x ∈ P.nodes
    · rw [Engine.padding?_of_mem hwf ha (hiff.2 hmem), Engine.padding?_of_mem hwf' hb
        (hiff'.2 hmem), (hagrees.mirrors x hmem).padding, Option.map_map]
      rfl
    · rw [Engine.padding?_of_not_mem hwf ha fun hx => hmem (hiff.1 hx),
        Engine.padding?_of_not_mem hwf' hb fun hx => hmem (hiff'.1 hx)]
  case last =>
    obtain ⟨p, p', hp, hp', hcontent⟩ := hagrees.last
    have hlast : n ∈ a.nodes := by
      rw [((h.grows_left.whole.analyze_iff (by simp)).1 ha).2.1]
      simp
    have hlast' : n' ∈ b.nodes := by
      rw [((h.grows_right.whole.analyze_iff (by simp)).1 hb).2.1]
      exact List.mem_append_right _ h.right.last_mem
    refine ⟨p, p', ?_, ?_, hcontent⟩
    · rw [Engine.padding?_of_mem hwf ha hlast, hp]
    · rw [Engine.padding?_of_mem hwf' hb hlast', hp']

/-- The settings of all old nodes are the same, up to the names of consumers. -/
theorem settings_eq {a b : Analysis} (ha : engine.analyze P.left (roots ++ [n]) = .ok a)
    (hb : engine.analyze P.right (roots ++ [n']) = .ok b)
    (hagrees : P.Agrees n n' a.run b.run) {x : NodeRef} (hx : w.Has x) :
    b.settings x = (a.settings x).map (Setting.retarget P.rename) := by
  obtain ⟨-, hwf, hwf'⟩ := h.wellFormed
  obtain ⟨hiff, hiff'⟩ := h.mem_nodes_iff ha hb hx
  by_cases hmem : x ∈ P.nodes
  · rw [Engine.settings_of_mem hwf ha (hiff.2 hmem), Engine.settings_of_mem hwf' hb (hiff'.2 hmem)]
    exact (hagrees.mirrors x hmem).settings
  · rw [Engine.settings_of_not_mem hwf ha fun hx => hmem (hiff.1 hx),
      Engine.settings_of_not_mem hwf' hb fun hx => hmem (hiff'.1 hx)]
    rfl

end Compares

end Pairing

end LanePadding
