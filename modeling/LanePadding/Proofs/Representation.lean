import LanePadding.Proofs.GraphInvariant
import LanePadding.Proofs.Stores

/-!
# Settings and actions fit together

The actions of an analysis are read off its settings, so the settings have to be in order at any
time.  This file collects what they are like: the actions on a tensor are its settings, one by one
and in the same order; a setting is for all readers or exactly for those who demanded it; fills are
told apart, and so are the constants that a reader may find; and only tensors with padding lanes
have settings at all (`Run.Represented`).

The statement is about every state that an analysis comes to when a node is done, and about its
result.  Later states only add to earlier ones (`Run.Extends`), so whether a setting is for all
readers never changes.

## What is here

* `Node.Reads.of_mem_replicatedAxes` — the axes that copies of lane 0 are about.
* `Run.Represented` — the invariant of the settings of one tensor.
* `Engine.Stage` — the states that an analysis comes to.
* `Engine.represented_of_stage` — the invariant holds in all of them.
-/

set_option autoImplicit false

namespace LanePadding

/-! ## Axes whose lanes are copied -/

namespace Node

variable {c x : Node}

theorem pairwise_replicatedAxes (c x : Node) : (c.replicatedAxes x).Pairwise (· < ·) := by
  rw [replicatedAxes, alignedAxes, List.filterMap_map]
  refine List.pairwise_lt_range.filterMap _ fun i j hij a ha b hb => ?_
  simp only [Function.comp_apply] at ha hb
  grind

/-- A replicated axis is an axis of the operand with a single real lane. -/
theorem Reads.of_mem_replicatedAxes (h : c.Reads x) {i : Nat} (hi : i ∈ c.replicatedAxes x) :
    i < x.rank ∧ (x.axes.getD i .unit).extent = 1 := by
  have hle := h.rank_le
  rw [replicatedAxes, alignedAxes, List.filterMap_map] at hi
  obtain ⟨j, hj, hji⟩ := List.mem_filterMap.1 hi
  have hj := List.mem_range.1 hj
  simp only [Function.comp_apply] at hji
  split at hji
  · rename_i hposition
    split at hji
    · rename_i hbroadcast
      obtain rfl := Option.some.inj hji
      have hown : (expandToRank x.axes c.rank).getD j .unit =
          x.axes.getD (j + x.rank - c.rank) .unit := by
        have hlength : (List.replicate (c.rank - x.axes.length) Axis.unit).length =
            c.rank - x.rank :=
          List.length_replicate
        rw [expandToRank, List.getD_append_right _ _ _ _ (by omega), hlength]
        congr 1
        omega
      have hone : ((expandToRank x.axes c.rank).getD j .unit).extent = 1 :=
        of_decide_eq_true (Bool.and_eq_true_iff.1 hbroadcast).1
      exact ⟨by omega, hown ▸ hone⟩
    · exact absurd hji (by simp)
  · simp at hji

/-- Padding lanes are read only where there are some. -/
theorem Reads.hasPadding (h : c.Reads x) (hreads : c.readsOwnPadding x = true) :
    x.hasPadding = true := by
  obtain ⟨a, ha, hpadded⟩ := List.any_eq_true.1 hreads
  have hown := (Bool.and_eq_true_iff.1 hpadded).1
  rcases List.mem_append.1 (List.of_mem_zip (h.mem_zip ha)).1 with hunit | haxis
  · rw [List.eq_of_mem_replicate hunit] at hown
    exact absurd hown (by decide)
  · exact List.any_eq_true.2 ⟨a.own, haxis, hown⟩

end Node

/-! ## One tensor -/

namespace Run

/-- **What the settings of the tensor `x` are like.** -/
structure Represented (w : Workspace) (roots nodes : List NodeRef) (r : Run) (x : NodeRef) :
    Prop where
  /-- No two settings write the same fill with the same targeting. -/
  distinct : (r.entry x).settings.Pairwise fun s s' =>
    ¬(s.fill.equal s'.fill = true ∧ s.isTargeted = s'.isTargeted)
  targets : ∀ s ∈ (r.entry x).settings, s.targets = [] ∨ s.targets = s.demandedBy
  nodup : ∀ s ∈ (r.entry x).settings, s.targets.Nodup ∧ s.demandedBy.Nodup
  /-- Settings are for consumers, and for the tensor's own store. -/
  readers : ∀ s ∈ (r.entry x).settings, ∀ c, c ∈ s.targets ∨ c ∈ s.demandedBy →
    c ∈ nodes ∧ x ∈ (w.node c).inputs ∨ c = x ∧ x ∈ roots
  /-- At most one constant is for all readers. -/
  general : ∀ (i j : Nat) (s s' : Setting), (r.entry x).settings[i]? = some s →
    (r.entry x).settings[j]? = some s' → s.fill.isConstant = true → s'.fill.isConstant = true →
    s.targets = [] → s'.targets = [] → i = j
  /-- Nobody demands two constants. -/
  demander : ∀ (i j : Nat) (s s' : Setting), (r.entry x).settings[i]? = some s →
    (r.entry x).settings[j]? = some s' →
    s.fill.isConstant = true → s'.fill.isConstant = true →
    ∀ c ∈ s.demandedBy, c ∈ s'.demandedBy → i = j
  constants : ∀ s ∈ (r.entry x).settings, ∀ v, s.fill = .constant v → v.dtype = (w.node x).dtype
  /-- Copies of lane 0 are made along axes that have one real lane and several stored ones. -/
  positions : ∀ s ∈ (r.entry x).settings, ∀ e, s.fill = .position e → e.source = x ∧ e.axes ≠ [] ∧
    e.axes.Pairwise (· < ·) ∧
    ∀ i ∈ e.axes, ∃ (j : Nat) (axis : Axis), i = j ∧ (w.node x).axes[j]? = some axis ∧
    axis.extent = 1 ∧ 1 < axis.size
  padded : (r.entry x).settings ≠ [] → ∃ axis ∈ (w.node x).axes, axis.extent < axis.size

variable {w : Workspace} {engine : Engine} {g : Nat} {roots nodes done : List NodeRef}
  {needs : NodeRef → Scalar → Prop} {x n : NodeRef} {k : Nat} {q : PaddingValue} {r r' : Run}

/-- The copies that the consumer `c` needs of `x`, if it needs any. -/
structure Copies (w : Workspace) (x c : NodeRef) (e : PositionExpr) : Prop where
  reads : (w.node c).Reads (w.node x)
  expr : e = w.laneFixExpr c x
  needed : w.laneFix c x ≠ []

theorem Copies.axes {c : NodeRef} {e : PositionExpr} (h : Copies w x c e) :
    e.source = x ∧ e.axes ≠ [] ∧ e.axes.Pairwise (· < ·) ∧
      ∀ i ∈ e.axes, ∃ (j : Nat) (axis : Axis), i = j ∧ (w.node x).axes[j]? = some axis ∧
      axis.extent = 1 ∧
        1 < axis.size := by
  rw [h.expr]
  refine ⟨rfl, by simpa [Workspace.laneFixExpr] using h.needed, ?_, fun i hi => ?_⟩
  · refine List.Pairwise.map Int.ofNat (fun a b hab => Int.ofNat_lt.2 hab) ?_
    exact (Node.pairwise_replicatedAxes ..).filter _
  · obtain ⟨j, hj, rfl⟩ := List.mem_map.1 hi
    obtain ⟨hmem, hsize⟩ := List.mem_filter.1 hj
    obtain ⟨hlt, hextent⟩ := h.reads.of_mem_replicatedAxes hmem
    have hget : (w.node x).axes.getD j .unit = (w.node x).axes[j] := List.getD_eq_getElem _ _ hlt
    rw [hget] at hextent hsize
    exact ⟨j, (w.node x).axes[j], rfl, List.getElem?_eq_getElem hlt, hextent,
      of_decide_eq_true hsize⟩

/-- **What is left to show of one tensor** beyond what every change of settings keeps. -/
theorem Regular.represented (hr : r.Regular w g nodes) (htidy : r.Tidy) (hx : x.graph = g)
    (hreaders : ∀ s ∈ (r.entry x).settings, ∀ c ∈ s.demandedBy,
      c ∈ nodes ∧ x ∈ (w.node c).inputs ∨ c = x ∧ x ∈ roots)
    (hgeneral : ∀ {i j : Nat} {s s' : Setting}, (r.entry x).settings[i]? = some s →
      (r.entry x).settings[j]? = some s' → s.constant? ≠ none → s'.constant? ≠ none →
      s.targets = [] → s'.targets = [] → i = j)
    (hdemander : ∀ {i j : Nat} {s s' : Setting}, (r.entry x).settings[i]? = some s →
      (r.entry x).settings[j]? = some s' → s.constant? ≠ none → s'.constant? ≠ none →
      ∀ {c}, c ∈ s.demandedBy → c ∈ s'.demandedBy → i = j)
    (hcopies : ∀ s ∈ (r.entry x).settings, ∀ e, s.fill = .position e → ∃ c, Copies w x c e)
    (hpadded : ∀ s ∈ (r.entry x).settings, s.constant? ≠ none → (w.node x).hasPadding = true) :
    r.Represented w roots nodes x := by
  have hconst : ∀ {s : Setting}, s.fill.isConstant = true → s.constant? ≠ none := fun h => by
    rwa [Setting.isConstant_fill, Option.isSome_iff_ne_none] at h
  constructor
  case distinct => exact (hr.distinct x).fills
  case targets => exact htidy x
  case nodup =>
    intro s hs
    have hnodup := (hr.distinct x).demanders s hs
    refine ⟨?_, hnodup⟩
    rcases htidy x s hs with hnil | hall
    · simp [hnil]
    · rwa [hall]
  case readers =>
    intro s hs c hc
    exact hreaders s hs c (hc.elim (htidy x s hs).mem_demandedBy id)
  case general => exact fun i j s s' hs hs' h h' => hgeneral hs hs' (hconst h) (hconst h')
  case demander =>
    exact fun i j s s' hs hs' h h' c hc hc' => hdemander hs hs' (hconst h) (hconst h') hc hc'
  case constants =>
    intro s hs v hv
    exact hr.fills x hx s hs v (by rw [Setting.constant?, hv])
  case positions =>
    intro s hs e he
    obtain ⟨c, hc⟩ := hcopies s hs e he
    exact hc.axes
  case padded =>
    intro hsome
    obtain ⟨s, hs⟩ := List.exists_mem_of_ne_nil _ hsome
    cases hfill : s.fill with
    | constant v =>
      obtain ⟨axis, haxis, hlt⟩ :=
        List.any_eq_true.1 (hpadded s hs (by simp [Setting.constant?, hfill]))
      exact ⟨axis, haxis, of_decide_eq_true hlt⟩
    | position e =>
      obtain ⟨c, hc⟩ := hcopies s hs e hfill
      obtain ⟨-, hsome, -, haxes⟩ := hc.axes
      obtain ⟨i, hi⟩ := List.exists_mem_of_ne_nil _ hsome
      obtain ⟨j, axis, -, haxis, hextent, hsize⟩ := haxes i hi
      exact ⟨axis, List.mem_of_getElem? haxis, by omega⟩

/-- A tensor without settings is in order. -/
theorem Regular.represented_of_settings_eq_nil (hr : r.Regular w g nodes) (htidy : r.Tidy)
    (hx : x.graph = g) (hnil : (r.entry x).settings = []) : r.Represented w roots nodes x := by
  refine hr.represented htidy hx ?_ ?_ ?_ ?_ ?_ <;> simp [hnil]

/-- A consumer that is settled demanded the copies that it needs. -/
theorem Settled.exists_copies {c : NodeRef} (h : Settled w engine r c)
    (hformed : (w.node c).Formed w c) (hpoint : (w.node c).op.isPointwise = true)
    (hinput : x ∈ (w.node c).inputs) {s : Setting} (hs : s ∈ (r.entry x).settings)
    {e : PositionExpr} (hfill : s.fill = .position e) (hc : c ∈ s.demandedBy) :
    Copies w x c e := by
  obtain ⟨-, hsome, hexpr⟩ := (h.fixed hpoint x hinput e).1 ⟨s, hs, hfill, hc⟩
  exact ⟨hformed.reads hpoint x hinput, hexpr, hsome⟩

/-- Only pointwise nodes demand copies of lane 0. -/
theorem Shape.isPointwise_of_position (h : r.Shape w x needs k q) {s : Setting}
    (hs : s ∈ (r.entry x).settings) {e : PositionExpr} (hfill : s.fill = .position e) {c : NodeRef}
    (hc : c ∈ s.demandedBy) :
    (w.node c).op.isPointwise = true := by
  obtain ⟨i, hi⟩ := List.mem_iff_getElem?.1 hs
  rcases Nat.lt_or_ge i k with hk | hk
  · -- what makes a tensor safe is a constant
    cases h.offers with
    | own => exact absurd hk (Nat.not_lt_zero i)
    | filled hfirst hconst =>
      obtain rfl : i = 0 := Nat.lt_one_iff.1 hk
      obtain rfl := Option.some.inj (hfirst.symm.trans hi)
      exact absurd (hconst.symm.trans hfill) (by simp)
  · exact h.copies i s hk hi (by rw [Setting.constant?, hfill]) c hc

/-- Settings with constants are made only where there is padding. -/
theorem Shape.hasPadding (h : r.Shape w x needs k q) (hw : w.WellFormed)
    (hneeds : ∀ c u, needs c u → (w.node x).hasPadding = true)
    (hconsumers : ∀ c ∈ (r.entry x).consumers, w.Has c ∧ x ∈ (w.node c).inputs) {s : Setting}
    (hs : s ∈ (r.entry x).settings) (hconst : s.constant? ≠ none) :
    (w.node x).hasPadding = true := by
  obtain ⟨i, hi⟩ := List.mem_iff_getElem?.1 hs
  rcases Nat.lt_or_ge i k with hk | hk
  · cases h.offers with
    | own => exact absurd hk (Nat.not_lt_zero i)
    | filled _ _ _ hsensitive =>
      obtain ⟨c, hc⟩ := List.exists_mem_of_ne_nil _ hsensitive
      obtain ⟨hc, happly⟩ := List.mem_filter.1 hc
      obtain ⟨hhas, hinput⟩ := hconsumers c hc
      refine ((hw c hhas).reads (isPointwise_of_applying? happly) x hinput).hasPadding ?_
      rw [FaultRule.applying?] at happly
      split at happly
      · assumption
      · simp at happly
  · obtain ⟨v, hv⟩ := Option.ne_none_iff_exists'.1 hconst
    obtain ⟨-, hsome, hdemanders⟩ := h.constants i s hk hi v hv
    obtain ⟨c, hc⟩ := List.exists_mem_of_ne_nil _ hsome
    obtain ⟨u, hu, -⟩ := hdemanders c hc
    exact hneeds c u hu

end Run

/-! ## The states of an analysis -/

/-- The state that the analysis of the roots comes to in its stage `i`: after `i` nodes are
simulated, or in the end.  The nodes are all those that the roots depend on. -/
inductive Engine.Stage (engine : Engine) (w : Workspace) (roots : List NodeRef) :
    List NodeRef → Nat → Run → Prop
  | simulated {first : NodeRef} {tail done todo : List NodeRef} {r : Run}
      (hroots : roots = first :: tail) (hreach : w.reachable roots = .ok (done ++ todo))
      (h : engine.simulateFrom w (done ++ todo).length 0 done
        (.initial w first.graph (done ++ todo) (distinct roots)) = .ok r) :
      Stage engine w roots (done ++ todo) done.length r
  | ended {a : Analysis} (h : engine.analyze w roots = .ok a) : Stage engine w roots a.nodes
      (a.nodes.length + 1) a.run

namespace Run

variable {w : Workspace} {engine : Engine} {g : Nat} {roots nodes done todo : List NodeRef}
  {x : NodeRef} {r r' : Run}

/-- Actions are about tensors that are analysed. -/
theorem Regular.tensor_mem (hr : r.Regular w g nodes) {b : Action} (hb : b ∈ r.actions) :
    b.tensor ∈ nodes := by
  obtain ⟨m, hm, hb⟩ := List.mem_filterMap.1 hb
  obtain ⟨s, -, rfl⟩ := Option.map_eq_some_iff.1 hb
  exact hr.emissions m hm

/-- Other tensors have no settings. -/
theorem Regular.settings_eq_nil (hr : r.Regular w g nodes) (hemits : r.Emits x) (hx : x ∉ nodes) :
    (r.entry x).settings = [] := by
  have hnone : r.actions.filter (·.tensor = x) = [] := by
    refine List.filter_eq_nil_iff.2 fun b hb htensor => hx ?_
    rw [← of_decide_eq_true htensor]
    exact hr.tensor_mem hb
  rw [hemits.actions_filter] at hnone
  exact List.map_eq_nil_iff.1 hnone

/-- Reductions need one scalar each, and do not fault. -/
theorem Coherent.decides (hr : Coherent w g nodes (distinct roots) done r) (hx : x.graph = g)
    (hhas : w.Has x) :
    r.Decides w x (engine.Needs w x) where
  unique _ _ _ hu hu' := hu.unique hu'
  sensitive c hc u hu := by
    have happly := (List.mem_filter.1 hc).2
    simp [hu.applying?_eq_none] at happly
  single _ s hs c hc := (hr.demanders x hx s hs c hc).1
  shared c hc c' hc' hne := hr.one_lt_readers hx hhas hc hc' hne

/-- **While nodes are simulated**, the settings of all tensors are in order. -/
theorem Coherent.represented (hr : Coherent w g nodes (distinct roots) done r) (hw : w.WellFormed)
    (hlists : w.Lists g roots nodes) (hregular : r.Regular w g nodes)
    (hsettled : ∀ x ∈ done, Settled w engine r x)
    (hshape : ∀ x ∈ done, ∃ k q, r.Shape w x (engine.Needs w x) k q) (hx : x ∈ nodes) :
    r.Represented w roots nodes x := by
  obtain ⟨hgraph, hhas⟩ := hlists.has x hx
  by_cases hdone : x ∈ done
  · obtain ⟨k, q, hq⟩ := hshape x hdone
    have hdecides : r.Decides w x (engine.Needs w x) := hr.decides hgraph hhas
    have hconsumer : ∀ {c}, c ∈ (r.entry x).consumers → c ∈ nodes ∧ x ∈ (w.node c).inputs :=
      (hr.mem_consumers hgraph hhas).1
    refine hregular.represented hr.tidy hgraph (fun s hs c hc => ?_)
      (hq.eq_of_targets_eq_nil hdecides (hregular.distinct x))
      (hq.eq_of_mem_demandedBy hdecides (hregular.distinct x)) (fun s hs e he => ?_)
      (fun s hs => ?_)
    · exact .inl (hconsumer (hr.demanders x hgraph s hs c hc).1)
    · have hconst : s.constant? = none := by rw [Setting.constant?, he]
      obtain ⟨c, hc⟩ := List.exists_mem_of_ne_nil _ (hr.positions x hgraph s hs hconst).1
      obtain ⟨hmem, hwhy⟩ := hr.demanders x hgraph s hs c hc
      obtain ⟨hcnodes, hinput⟩ := hconsumer hmem
      have hcdone : c ∈ done := hwhy.resolve_right fun h => h.1 hconst
      exact ⟨c, (hsettled c hcdone).exists_copies (hw c (hlists.has c hcnodes).2)
        (hq.isPointwise_of_position hs he hc) hinput hs he hc⟩
    · refine hq.hasPadding hw (fun c u hu => hu.hasPadding) (fun c hc => ?_) hs
      exact ⟨(hlists.has c (hconsumer hc).1).2, (hconsumer hc).2⟩
  · exact hregular.represented_of_settings_eq_nil hr.tidy hgraph (hr.blank x hgraph hhas hdone).2

end Run

namespace Engine

variable {w : Workspace} {engine : Engine} {roots nodes : List NodeRef} {a : Analysis}
  {r r' : Run} {x : NodeRef}

/-- Only the store of the tensor itself is added to those who demand something of it. -/
theorem Simulates.mem_demandedBy (h : engine.Simulates w roots a r) (hx : x ∈ a.nodes) {s : Setting}
    (hs : s ∈ (a.run.entry x).settings) {c : NodeRef} (hc : c ∈ s.demandedBy) :
    c ∈ (a.run.entry x).consumers ∨ c = x ∧ x ∈ roots ∧ 1 < (a.run.entry x).readers := by
  obtain ⟨hgraph, hhas⟩ := h.lists.has x hx
  have hold : ∀ {r' : Run}, (r'.entry x).settings = (r.entry x).settings →
      ∀ s ∈ (r'.entry x).settings, ∀ c ∈ s.demandedBy, c ∈ (r.entry x).consumers :=
    fun hsame s hs c hc => (h.coherent.demanders x hgraph s (hsame ▸ hs) c hc).1
  have hstores := h.stores
  rw [RunM.requireOutputs] at hstores
  split at hstores
  · have houtputs := Run.exists_requireOutput (nodup_distinct _)
      (fun y hy => (h.lists.roots y (mem_distinct.1 hy)).1) h.coherent.size hgraph hstores
    by_cases hroot : x ∈ distinct roots
    · obtain ⟨t, t', hyields, hsize, ht, ht'⟩ := houtputs.2 hroot
      have hgrown := (Run.required_of_requireOutput hgraph
        (hsize.trans h.coherent.size) hyields).grown
      have hself : (if 1 < (t.entry x).readers then some x else none) = some c →
          c = x ∧ x ∈ roots ∧ 1 < (a.run.entry x).readers := by
        intro hsome
        split at hsome
        · rename_i hreaders
          refine ⟨(Option.some.inj hsome).symm, mem_distinct.1 hroot, ?_⟩
          rwa [ht', hgrown.readers]
        · exact absurd hsome (by simp)
      rw [ht'] at hs
      rw [ht', hgrown.consumers, ht]
      rcases (hgrown.settings x).mem_cases hs with ⟨s₀, hs₀, hjoined⟩ | ⟨fill, rfl⟩
      · rcases hjoined.mem_demandedBy hc with hmem | hsome
        · exact .inl (hold (by rw [ht]) s₀ hs₀ c hmem)
        · exact .inr (ht' ▸ hself hsome)
      · exact .inr (ht' ▸ hself (Entry.mem_demandedBy_newSetting.1 hc))
    · rw [houtputs.1 hroot] at hs ⊢
      exact .inl (hold rfl s hs c hc)
  · obtain ⟨-, hrun⟩ := RunM.yields_pure.1 hstores
    rw [hrun] at hs ⊢
    exact .inl (hold rfl s hs c hc)

/-- The readers of an output need one scalar each, its own store included. -/
theorem Simulates.decides (h : engine.Simulates w roots a r) (hw : w.WellFormed)
    (hcounts : Run.Counts w a.graph a.nodes (distinct roots) a.run) (hx : x ∈ a.nodes) :
    a.run.Decides w x (engine.Requires w (distinct roots) x) := by
  obtain ⟨hgraph, hhas⟩ := h.lists.has x hx
  have hirrefl := hw.not_mem_inputs hhas
  constructor
  case unique =>
    rintro c u u' (hu | ⟨hc, -, -, -, hu⟩) (hu' | ⟨hc', -, -, -, hu'⟩)
    · exact hu.unique hu'
    · exact absurd (hc' ▸ hu.mem_inputs) hirrefl
    · exact absurd (hc ▸ hu'.mem_inputs) hirrefl
    · rw [hu, hu']
  case sensitive =>
    rintro c hc u (hu | ⟨rfl, -⟩)
    · have happly := (List.mem_filter.1 hc).2
      simp [hu.applying?_eq_none] at happly
    · exact hirrefl ((hcounts.mem_consumers hgraph hhas).1 (List.mem_filter.1 hc).1).2
  case single =>
    intro hfew s hs c hc
    exact (h.mem_demandedBy hx hs hc).resolve_right fun hself => hfew hself.2.2
  case shared => exact fun c hc c' hc' hne => hcounts.one_lt_readers hgraph hhas hc hc' hne

/-- **In the end**, the settings of all tensors are in order. -/
theorem Simulates.represented (h : engine.Simulates w roots a r) (hw : w.WellFormed)
    (houtcome : a.run.Outcome w engine a.graph a.nodes (distinct roots))
    (hregular : a.run.Regular w a.graph a.nodes) (hx : x ∈ a.nodes) :
    a.run.Represented w roots a.nodes x := by
  obtain ⟨hgraph, hhas⟩ := h.lists.has x hx
  obtain ⟨k, q, hshape⟩ := h.shaped x hx
  have hconsumer : ∀ {c}, c ∈ (a.run.entry x).consumers → c ∈ a.nodes ∧ x ∈ (w.node c).inputs :=
    (houtcome.mem_consumers hgraph hhas).1
  cases h.closed hw hx hshape with
  | shared hclosed _ =>
    have hdecides := h.decides hw houtcome.toCounts hx
    refine hregular.represented houtcome.tidy hgraph (fun s hs c hc => ?_)
      (hclosed.eq_of_targets_eq_nil hdecides (hregular.distinct x))
      (hclosed.eq_of_mem_demandedBy hdecides (hregular.distinct x)) (fun s hs e he => ?_)
      (fun s hs => ?_)
    · exact (h.mem_demandedBy hx hs hc).imp hconsumer fun hself => ⟨hself.1, hself.2.1⟩
    · obtain ⟨hsome, hmem, -⟩ := houtcome.positions x hgraph s hs (by rw [Setting.constant?, he])
      obtain ⟨c, hc⟩ := List.exists_mem_of_ne_nil _ hsome
      obtain ⟨hcnodes, hinput⟩ := hconsumer (hmem c hc)
      exact ⟨c, (houtcome.settled c hcnodes).exists_copies (hw c (h.lists.has c hcnodes).2)
        (hclosed.isPointwise_of_position hs he hc) hinput hs he hc⟩
    · refine hclosed.hasPadding hw (fun c u hu => hu.hasPadding) (fun c hc => ?_) hs
      exact ⟨(h.lists.has c (hconsumer hc).1).2, (hconsumer hc).2⟩
  | lone _ _ _ _ hpadded _ _ hsettings =>
    refine hregular.represented houtcome.tidy hgraph ?_ ?_ ?_ ?_ fun _ _ _ => hpadded
    · intro s hs c hc
      rw [hsettings, List.mem_singleton] at hs
      subst hs
      exact absurd (Entry.mem_demandedBy_newSetting.1 hc) (by simp)
    · intro i j s s' hs hs' _ _ _ _
      rw [hsettings] at hs hs'
      have hi := (List.getElem?_eq_some_iff.1 hs).1
      have hj := (List.getElem?_eq_some_iff.1 hs').1
      simp only [List.length_singleton] at hi hj
      omega
    · intro i j s s' hs hs' _ _ c _ _
      rw [hsettings] at hs hs'
      have hi := (List.getElem?_eq_some_iff.1 hs).1
      have hj := (List.getElem?_eq_some_iff.1 hs').1
      simp only [List.length_singleton] at hi hj
      omega
    · intro s hs e he
      rw [hsettings, List.mem_singleton] at hs
      subst hs
      exact absurd he (by simp)

/-- What holds while nodes are simulated. -/
theorem coherent_of_simulateFrom (hw : w.WellFormed) {first : NodeRef}
    {tail done todo : List NodeRef} (hreach : w.reachable (first :: tail) = .ok (done ++ todo))
    (h : engine.simulateFrom w (done ++ todo).length 0 done
      (.initial w first.graph (done ++ todo) (distinct (first :: tail))) = .ok r) :
    Run.Coherent w first.graph (done ++ todo) (distinct (first :: tail)) done r ∧
      (∀ x ∈ done, Run.Settled w engine r x) ∧ ∀ x ∈ done, ∃ k q, r.Shape w x
        (engine.Needs w x) k q := by
  have hlists := Workspace.lists_of_reachable hw hreach
  have hsplit : done ++ todo = [] ++ (done ++ todo) := rfl
  obtain ⟨hcoherent, hsettled⟩ :=
    Run.simulateFrom_spec hw hlists hsplit (Run.coherent_initial ..) (by simp) h
  exact ⟨hcoherent, hsettled, Run.exists_shape_of_simulateFrom hw hlists hsplit
    (Run.coherent_initial ..) (by simp) h⟩

/-- Later stages are reached from earlier ones. -/
theorem Stage.passes {first : NodeRef} {tail : List NodeRef} (hw : w.WellFormed) {i j : Nat}
    (h : engine.Stage w (first :: tail) nodes i r) (h' : engine.Stage w (first :: tail) nodes j r')
    (hij : i ≤ j) :
    Run.Passes w first.graph nodes (distinct (first :: tail)) (fun _ => True) r r' := by
  generalize hnodes : nodes = nodes' at h'
  cases h with
  | @simulated _ _ done todo _ hroots hreach h =>
    obtain ⟨rfl, rfl⟩ := List.cons.inj hroots
    have hlists := Workspace.lists_of_reachable hw hreach
    obtain ⟨hcoherent, -, -⟩ := coherent_of_simulateFrom hw hreach h
    -- the nodes between the two stages
    have hbetween : ∀ {mid rest r''}, done ++ todo = done ++ (mid ++ rest) →
        engine.simulateFrom w (done ++ todo).length 0 (done ++ mid)
          (.initial w first.graph (done ++ todo) (distinct (first :: tail))) = .ok r'' →
        Run.Passes w first.graph (done ++ todo) (distinct (first :: tail))
          (fun _ => True) r r'' := by
      intro mid rest r'' hsplit hmid
      obtain ⟨s, hs, hmid⟩ := simulateFrom_append.1 hmid
      obtain rfl := Except.ok.inj (h.symm.trans hs)
      exact Run.passes_of_simulateFrom hw hlists hsplit hcoherent (by simp) hmid
    cases h' with
    | @simulated _ _ done' todo' _ hroots' hreach' h' =>
      obtain ⟨rfl, rfl⟩ := List.cons.inj hroots'
      obtain ⟨mid, rfl⟩ : ∃ mid, done' = done ++ mid := by
        have hprefix : done <+: done' :=
          List.prefix_of_prefix_length_le (hnodes ▸ List.prefix_append done todo)
            (List.prefix_append done' todo') hij
        obtain ⟨mid, hmid⟩ := hprefix
        exact ⟨mid, hmid.symm⟩
      rw [← hnodes] at h' ⊢
      exact hbetween (by rw [hnodes, List.append_assoc]) h'
    | ended h' =>
      obtain ⟨_, _, s, hroots', hgraph, -, hsim, houtputs⟩ := analyze_eq_ok.1 h'
      obtain ⟨rfl, rfl⟩ := List.cons.inj hroots'
      rw [← hnodes, hgraph] at hsim
      rw [← hnodes]
      have hreach' : w.reachable (first :: tail) = .ok ((done ++ todo) ++ []) := by
        simpa using hreach
      obtain ⟨hcoherent', -, -⟩ := coherent_of_simulateFrom hw hreach' (by simpa using hsim)
      have hcounts := hcoherent'.toCounts
      rw [List.append_nil] at hcounts
      have hall : done ++ todo = done ++ (todo ++ []) := by simp
      exact (hbetween hall hsim).trans
        (Run.passes_of_requireOutputs hlists hcounts.size (fun _ => trivial) (fun _ => id) houtputs)
  | ended h =>
    cases h' with
    | @simulated _ _ done' todo' _ hroots' hreach' h' =>
      have hlength := congrArg List.length hnodes
      simp only [List.length_append] at hlength
      omega
    | ended h' =>
      obtain rfl := Except.ok.inj (h.symm.trans h')
      exact .refl

theorem Stage.exists_reachable {i : Nat} (h : engine.Stage w roots nodes i r) :
    ∃ first tail, roots = first :: tail ∧ w.reachable roots = .ok nodes := by
  cases h with
  | simulated hroots hreach _ => exact ⟨_, _, hroots, hreach⟩
  | ended h =>
    obtain ⟨first, tail, -, hroots, -, hreach, -⟩ := analyze_eq_ok.1 h
    exact ⟨first, tail, hroots, hreach⟩

/-- **What every change keeps** holds in every stage, and later stages extend earlier ones. -/
theorem Stage.regular (hw : w.WellFormed) {first : NodeRef} {tail : List NodeRef} {i : Nat}
    (h : engine.Stage w (first :: tail) nodes i r) :
    r.Regular w first.graph nodes ∧ ∀ j r', engine.Stage w (first :: tail) nodes j r' → i ≤ j →
      r.Extends r' := by
  obtain ⟨_, _, -, hreach⟩ := h.exists_reachable
  have hlists := Workspace.lists_of_reachable hw hreach
  have houtputs : ∀ x ∈ distinct (first :: tail), w.Has x → x ∈ nodes :=
    fun x hx => (hlists.roots x (mem_distinct.1 hx)).2
  have hcounts := (Run.coherent_initial w first.graph nodes (distinct (first :: tail))).toCounts
  have hstart : engine.Stage w (first :: tail) ([] ++ nodes) ([] : List NodeRef).length
      (.initial w first.graph nodes (distinct (first :: tail))) := .simulated rfl hreach rfl
  have hpasses := hstart.passes hw h (Nat.zero_le i)
  obtain ⟨hregular, -⟩ := hpasses.regular hlists houtputs hcounts (Run.regular_initial ..)
  obtain ⟨hcounts', -⟩ :=
    hpasses.invariant hlists (I := fun _ => True) (fun _ _ _ _ => trivial) hcounts trivial
  exact ⟨hregular, fun j r' h' hij =>
    ((h.passes hw h' hij).regular hlists houtputs hcounts' hregular).2⟩

/-- **Settings and actions are in order at any time**: whenever a node is done, and in the end, the
actions on a tensor are its settings, and these are as `Run.Represented` has them.  Settings are
never lost, and whether they are for all readers or for some never changes. -/
theorem represented_of_stage (hw : w.Built) {i : Nat} (h : engine.Stage w roots nodes i r) :
    (∀ b ∈ r.actions, b.tensor ∈ nodes) ∧
    (∀ root ∈ roots, ∀ x, x.graph = root.graph →
      r.actions.filter (·.tensor = x) =
        (r.entry x).settings.map (fun s => (⟨x, s.fill, s.targets⟩ : Action)) ∧
        r.Represented w roots nodes x) ∧
    ∀ j r', engine.Stage w roots nodes j r' → i ≤ j → r.Extends r' := by
  have hwf := hw.wellFormed
  obtain ⟨first, tail, rfl, hreach⟩ := h.exists_reachable
  have hlists := Workspace.lists_of_reachable hwf hreach
  obtain ⟨hregular, hextends⟩ := h.regular hwf
  refine ⟨fun b => hregular.tensor_mem, fun root hroot x hx => ?_, hextends⟩
  have hgraph : x.graph = first.graph := hx.trans (hlists.roots root hroot).1
  obtain ⟨hemits, htidy, hrepresented⟩ : r.Emits x ∧ r.Tidy ∧
      (x ∈ nodes → r.Represented w (first :: tail) nodes x) := by
    cases h with
    | simulated hroots hreach h =>
      obtain ⟨rfl, rfl⟩ := List.cons.inj hroots
      obtain ⟨hcoherent, hsettled, hshaped⟩ := coherent_of_simulateFrom hwf hreach h
      exact ⟨hcoherent.emits x hgraph, hcoherent.tidy,
        hcoherent.represented hwf hlists hregular hsettled hshaped⟩
    | ended h =>
      obtain ⟨r, hsimulates⟩ := exists_simulates hwf h
      obtain ⟨-, houtcome⟩ := outcome_of_analyze hwf h
      obtain ⟨_, _, -, hroots, hfirst, -⟩ := analyze_eq_ok.1 h
      obtain ⟨rfl, rfl⟩ := List.cons.inj hroots
      rw [← hfirst] at hregular hgraph
      exact ⟨houtcome.emits x hgraph, houtcome.tidy, hsimulates.represented hwf houtcome hregular⟩
  refine ⟨hemits.actions_filter, ?_⟩
  by_cases hmem : x ∈ nodes
  · exact hrepresented hmem
  · exact hregular.represented_of_settings_eq_nil htidy hgraph
      (hregular.settings_eq_nil hemits hmem)

end Engine

/-- A vector that is scaled by a single lane, read by a logarithm and summed up: it is made safe,
copies are needed of the single lane, and the sum needs zeros. -/
def Workspace.scaledLogarithm : Workspace :=
  (Workspace.empty.addGraph "scaled").calls
    [.placeholder 0 "x" .float32 [⟨16, 15⟩], .placeholder 0 "s" .float32 [⟨8, 1⟩],
      .binary (.binary .mul) (.node ⟨0, 0⟩) (.node ⟨0, 1⟩), .unary (.unary .log) ⟨0, 0⟩,
      .reduce (.reduce .sum) ⟨0, 0⟩ false [0]]

theorem Workspace.built_scaledLogarithm : scaledLogarithm.Built :=
  (Built.addGraph "scaled" .empty).calls (by decide)

theorem Engine.exists_analyze_scaledLogarithm :
    ∃ a, default.analyze .scaledLogarithm [⟨0, 2⟩, ⟨0, 3⟩, ⟨0, 4⟩] = .ok a ∧
      a.nodes = [⟨0, 0⟩, ⟨0, 1⟩, ⟨0, 2⟩, ⟨0, 3⟩] ++ [⟨0, 4⟩] ∧
      (a.run.entry ⟨0, 0⟩).settings.length = 2 ∧ (a.run.entry ⟨0, 1⟩).settings.length = 1 :=
  Workspace.built_scaledLogarithm.exists_analyze 0 [⟨0, 0⟩, ⟨0, 1⟩, ⟨0, 2⟩, ⟨0, 3⟩, ⟨0, 4⟩]
    (by decide) (by decide +kernel)

/-- The vector has two settings in the end, one action for each of them, and what was there before
the sum was simulated is still there. -/
theorem Engine.represented_scaledLogarithm :
    ∃ a before, default.analyze .scaledLogarithm [⟨0, 2⟩, ⟨0, 3⟩, ⟨0, 4⟩] = .ok a ∧
      (a.actions.filter (·.tensor = ⟨0, 0⟩)).length = 2 ∧ (a.run.entry ⟨0, 1⟩).settings.length = 1 ∧
      a.run.Represented .scaledLogarithm [⟨0, 2⟩, ⟨0, 3⟩, ⟨0, 4⟩] a.nodes ⟨0, 1⟩ ∧
      default.Stage .scaledLogarithm [⟨0, 2⟩, ⟨0, 3⟩, ⟨0, 4⟩] a.nodes 4 before ∧
      before.Extends a.run := by
  obtain ⟨a, ha, hnodes, hsettings, hcopies⟩ := exists_analyze_scaledLogarithm
  have hbuilt := Workspace.built_scaledLogarithm
  obtain ⟨-, htensors, -⟩ := represented_of_stage hbuilt (.ended ha)
  obtain ⟨first, tail, simulated, hroots, hgraph, hreach, hsim, -⟩ := analyze_eq_ok.1 ha
  rw [hnodes, hgraph] at hsim
  rw [hnodes] at hreach
  obtain ⟨before, hbefore, -⟩ := simulateFrom_append.1 hsim
  have hstage := Stage.simulated hroots hreach hbefore
  rw [← hnodes] at hstage
  obtain ⟨-, -, hextends⟩ := represented_of_stage hbuilt hstage
  refine ⟨a, before, ha, ?_, hcopies, (htensors ⟨0, 2⟩ (by simp) ⟨0, 1⟩ rfl).2, hstage,
    hextends _ _ (.ended ha) (by simp [hnodes])⟩
  rw [Analysis.actions, (htensors ⟨0, 2⟩ (by simp) ⟨0, 0⟩ rfl).1, List.length_map, hsettings]

end LanePadding
