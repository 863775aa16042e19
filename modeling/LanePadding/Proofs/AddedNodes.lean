import LanePadding.Proofs.CommonNodes

/-!
# Nodes added to a graph

A graph grows at its end: added nodes read old ones or each other, and the old nodes stay what they
were.  So an analysis of the added nodes' results starts with the old nodes that these depend on,
and the added ones come last.  The last one of all has no consumers, and what is written into it can
only be its store.

## What is here

* `Workspace.Adds` — nodes are added behind those of a graph, and `Workspace.Adds.partOf`, which are
  then analysed.
* `Build.ends_add_push` — a builder that adds a node behind the others.
* `Run.Lone` — a node that was simulated and that only its store reads, with
  `Run.exists_store_of_lone`.
* `RunM.yields_view_of_axes_eq` — operands of the same axes as their consumer are just read.
-/

set_option autoImplicit false

namespace LanePadding

/-! ## Graphs with added nodes -/

theorem Operand.mem_filterMap_node? {operands : List Operand} {x : NodeRef} :
    x ∈ operands.filterMap Operand.node? ↔ .node x ∈ operands := by
  simp only [List.mem_filterMap]
  constructor
  · rintro ⟨a, ha, hx⟩
    cases a with
    | node y => exact Option.some.inj hx ▸ ha
    | scalar v => exact absurd hx (by simp [Operand.node?])
    | symbol name d => exact absurd hx (by simp [Operand.node?])
  · exact fun hx => ⟨_, hx, rfl⟩

theorem expandToRank_length (axes : List Axis) : expandToRank axes axes.length = axes := by
  rw [expandToRank, Nat.sub_self, List.replicate_zero, List.nil_append]

namespace Workspace

variable {w w' : Workspace} {g : Nat} {n : Node}

theorem has_push_of_has {x : NodeRef} (h : w.Has x) : (w.push g n).Has x := by
  have hlt : x.index < (w.graph x.graph).nodes.size := h
  rw [Has, graph_push]
  split
  · rename_i hg
    rw [Array.size_push, hg.1]
    omega
  · exact h

theorem not_has_nextRef : ¬w.Has (w.nextRef g) := Nat.lt_irrefl _

theorem has_nextRef (hg : g < w.graphs.size) :
    (w.push g n).Has (w.nextRef g) := (appends_push hg n).has

theorem size_push (hg : g < w.graphs.size) :
    ((w.push g n).graph g).nodes.size = (w.graph g).nodes.size + 1 := by
  rw [graph_push, if_pos ⟨rfl, hg⟩, Array.size_push]

theorem index_nextRef_ne (hg : g < w.graphs.size) :
    (w.nextRef g).index ≠ ((w.push g n).nextRef g).index := by
  show (w.graph g).nodes.size ≠ ((w.push g n).graph g).nodes.size
  rw [size_push hg]
  omega

theorem size_graphs_push : (w.push g n).graphs.size = w.graphs.size := by simp [push]

theorem node_push_push_self {m : Node} (hg : g < w.graphs.size) :
    ((w.push g n).push g m).node (w.nextRef g) = n ∧
      ((w.push g n).push g m).node ((w.push g n).nextRef g) = m := by
  rw [node_push (has_nextRef hg), node_push_self hg, node_push_self (by rwa [size_graphs_push])]
  exact ⟨rfl, rfl⟩

theorem owner_eq_ok {op : OpKind} {xs : List NodeRef} (h : ∀ x ∈ xs, x.graph = g) :
    owner op (some g) xs = .ok g := by
  induction xs with
  | nil => rfl
  | cons x xs ih => rw [owner, if_pos (h x (by simp)), ih fun y hy => h y (by simp [hy])]

theorem commonDType_of_eq {op : OpKind} {a b : Operand} (h : w.operandDType a = w.operandDType b) :
    w.commonDType op a [b] = .ok (w.operandDType a) := by
  simp [commonDType, h]

theorem operandDType_push {a : Operand} (h : ∀ x, a = .node x → w.Has x) :
    (w.push g n).operandDType a = w.operandDType a := by
  cases a with
  | node x => rw [operandDType, operandDType, node_push (h x rfl)]
  | scalar v => rfl
  | symbol name d => rfl

/-- In `w'`, there are further nodes behind those of `w`.  The last one leads to all of them, and
together they read the nodes `l` of `w`. -/
structure Adds (w : Workspace) (g : Nat) (l : List NodeRef) (w' : Workspace) (new : List NodeRef)
    (last : NodeRef) :
    Prop where
  kept : ∀ x, w.Has x → w'.Has x ∧ w'.node x = w.node x
  behind : ∀ c ∈ new, c.graph = g ∧ w'.Has c ∧ ¬w.Has c
  sorted : new.Pairwise fun a b => a.index < b.index
  inputs : ∀ c ∈ new, ∀ x ∈ (w'.node c).inputs, x ∈ new ∨ x ∈ l
  reads : ∀ x ∈ l, x.graph = g ∧ w.Has x ∧ ∃ c ∈ new, x ∈ (w'.node c).inputs
  last_mem : last ∈ new
  reaches : ∀ c ∈ new, w'.Reaches [last] c

theorem adds_push (hg : g < w.graphs.size) (hinputs : ∀ x ∈ n.inputs, x.graph = g ∧ w.Has x) :
    w.Adds g n.inputs (w.push g n) [w.nextRef g] (w.nextRef g) := by
  have hnode := node_push_self (n := n) hg
  constructor
  case kept => exact fun x hx => ⟨has_push_of_has hx, node_push hx⟩
  case behind =>
    intro c hc
    obtain rfl := List.mem_singleton.1 hc
    exact ⟨rfl, has_nextRef hg, not_has_nextRef⟩
  case sorted => exact List.pairwise_singleton ..
  case inputs =>
    intro c hc x hx
    rw [List.mem_singleton.1 hc, hnode] at hx
    exact .inr hx
  case reads =>
    intro x hx
    obtain ⟨hgraph, hhas⟩ := hinputs x hx
    exact ⟨hgraph, hhas, _, List.mem_singleton_self _, by rwa [hnode]⟩
  case last_mem => exact List.mem_singleton_self _
  case reaches => exact fun c hc => .root hc

/-- Two nodes are added, and the second one reads the first one. -/
theorem adds_push_push (hg : g < w.graphs.size) {m : Node} {l : List NodeRef}
    (hl : ∀ x ∈ l, x.graph = g ∧ w.Has x ∧ (x ∈ n.inputs ∨ x ∈ m.inputs))
    (hn : ∀ x ∈ n.inputs, x ∈ l) (hm : ∀ x ∈ m.inputs, x = w.nextRef g ∨ x ∈ l)
    (hread : w.nextRef g ∈ m.inputs) :
    w.Adds g l ((w.push g n).push g m) [w.nextRef g, (w.push g n).nextRef g]
      ((w.push g n).nextRef g) := by
  have hg' : g < (w.push g n).graphs.size := by rwa [size_graphs_push]
  obtain ⟨hnode, hnode'⟩ := node_push_push_self (n := n) (m := m) hg
  constructor
  case kept =>
    exact fun x hx => ⟨has_push_of_has (has_push_of_has hx), (node_push (has_push_of_has hx)).trans
      (node_push hx)⟩
  case behind =>
    simp only [List.mem_cons, List.not_mem_nil, or_false, forall_eq_or_imp, forall_eq]
    exact ⟨⟨rfl, has_push_of_has (has_nextRef hg), not_has_nextRef⟩, rfl, has_nextRef hg',
      fun h => not_has_nextRef (has_push_of_has h)⟩
  case sorted =>
    refine List.pairwise_pair.2 ?_
    show (w.graph g).nodes.size < ((w.push g n).graph g).nodes.size
    rw [size_push hg]
    omega
  case inputs =>
    simp only [List.mem_cons, List.not_mem_nil, or_false, forall_eq_or_imp, forall_eq,
      hnode, hnode']
    exact ⟨fun x hx => .inr (hn x hx), fun x hx => (hm x hx).imp_left .inl⟩
  case reads =>
    intro x hx
    obtain ⟨hgraph, hhas, hinput⟩ := hl x hx
    refine ⟨hgraph, hhas, ?_⟩
    rcases hinput with hinput | hinput
    · exact ⟨_, List.mem_cons_self, by rwa [hnode]⟩
    · exact ⟨_, List.mem_cons_of_mem _ (List.mem_singleton_self _), by rwa [hnode']⟩
  case last_mem => simp
  case reaches =>
    have hlast := Reaches.root (w := (w.push g n).push g m)
      (List.mem_singleton_self ((w.push g n).nextRef g))
    simp only [List.mem_cons, List.not_mem_nil, or_false, forall_eq_or_imp, forall_eq]
    exact ⟨.input hlast (by rwa [hnode']), hlast⟩

namespace Adds

variable {l new roots nodes : List NodeRef} {last x : NodeRef}

/-- What the last node leads to, and what else there is to be found. -/
theorem reaches_iff (h : w.Adds g l w' new last) (hw : w.WellFormed)
    (hroots : ∀ x ∈ roots, w.Has x) :
    w'.Reaches (roots ++ [last]) x ↔ x ∈ new ∨ w.Reaches (roots ++ l) x := by
  have hhas : ∀ y, w.Reaches (roots ++ l) y → w.Has y := by
    intro y hy
    induction hy with
    | root hy => exact (List.mem_append.1 hy).elim (hroots _) fun hy => (h.reads _ hy).2.1
    | input _ hy ih => exact (hw.has_input ih hy).2
  constructor
  · intro hx
    induction hx with
    | root hx =>
      rcases List.mem_append.1 hx with hx | hx
      · exact .inr (.root (List.mem_append_left _ hx))
      · exact .inl (List.mem_singleton.1 hx ▸ h.last_mem)
    | input _ hx ih =>
      rcases ih with hc | hc
      · exact (h.inputs _ hc _ hx).imp_right fun hx => .root (List.mem_append_right _ hx)
      · rw [(h.kept _ (hhas _ hc)).2] at hx
        exact .inr (.input hc hx)
  · have hnew : ∀ c ∈ new, w'.Reaches (roots ++ [last]) c := fun c hc =>
      (h.reaches c hc).mono fun y hy => List.mem_append_right _ hy
    rintro (hx | hx)
    · exact hnew x hx
    · induction hx with
      | root hx =>
        rcases List.mem_append.1 hx with hx | hx
        · exact .root (List.mem_append_left _ hx)
        · obtain ⟨-, -, c, hc, hinput⟩ := h.reads _ hx
          exact .input (hnew c hc) hinput
      | @input c y hc hy ih =>
        rw [← (h.kept _ (hhas _ hc)).2] at hy
        exact .input ih hy

theorem index_lt (h : w.Adds g l w' new last) {c : NodeRef} (hc : c ∈ new) (hx : x.graph = g)
    (hhas : w.Has x) :
    x.index < c.index := by
  obtain ⟨hgraph, -, hnot⟩ := h.behind c hc
  have hlt : x.index < (w.graph x.graph).nodes.size := hhas
  rw [hx] at hlt
  rw [Has, hgraph] at hnot
  omega

/-- No added node reads the last one, since nodes read earlier ones. -/
theorem last_not_mem_inputs (h : w.Adds g l w' new last) (hw' : w'.WellFormed) {c : NodeRef}
    (hc : c ∈ new) :
    last ∉ (w'.node c).inputs := by
  have hle : ∀ x, w'.Reaches [last] x → w'.Has x ∧ x.index ≤ last.index := by
    intro x hx
    induction hx with
    | root hx =>
      obtain rfl := List.mem_singleton.1 hx
      exact ⟨(h.behind _ h.last_mem).2.1, le_rfl⟩
    | input _ hx ih =>
      exact ⟨(hw'.has_input ih.1 hx).2, (((hw' _ ih.1).earlier _ hx).2.trans_le ih.2).le⟩
  obtain ⟨hhas, hindex⟩ := hle c (h.reaches c hc)
  intro hinput
  have := ((hw' c hhas).earlier last hinput).2
  omega

/-- **The added nodes are analysed after the nodes that they and the roots lead to.** -/
theorem partOf (h : w.Adds g l w' new last) (hw : w.WellFormed) (hw' : w'.WellFormed)
    (hroots : ∀ x ∈ roots, x.graph = g ∧ w.Has x) (hnodes : w.PartOf g (roots ++ l) nodes) :
    w'.PartOf g (roots ++ [last]) (nodes ++ new) := by
  have hroots' : ∀ x ∈ roots ++ [last], x.graph = g ∧ w'.Has x := by
    intro x hx
    rcases List.mem_append.1 hx with hx | hx
    · exact (hroots x hx).imp_right fun hhas => (h.kept x hhas).1
    · obtain ⟨hgraph, hhas, -⟩ := h.behind x (List.mem_singleton.1 hx ▸ h.last_mem)
      exact ⟨hgraph, hhas⟩
  obtain ⟨nodes', hnodes'⟩ := exists_partOf hw' hroots'
  have hsorted : (nodes ++ new).Pairwise fun a b => a.index < b.index :=
    List.pairwise_append.2 ⟨sorted_of_reachable hw hnodes.reachable, h.sorted,
      fun x hx c hc => h.index_lt hc (hnodes.graph_eq x hx) (hnodes.has x hx)⟩
  have hsame : nodes' = nodes ++ new := by
    refine eq_of_sorted_index (sorted_of_reachable hw' hnodes'.reachable) hsorted fun x => ?_
    rw [hnodes'.mem_iff, h.reaches_iff hw fun x hx => (hroots x hx).2, List.mem_append,
      hnodes.mem_iff, or_comm]
  exact hsame ▸ hnodes'

end Adds
end Workspace

namespace Build

variable {w : Workspace} {g : Nat}

theorem on_eq_of_ends {α : Type} {b : Build α} {a : α} {w' : Workspace}
    (h : b.Ends w (fun a₀ w₀ => a₀ = a ∧ w₀ = w') fun _ => False) : b.on w = (.ok a, w') := by
  rw [Ends] at h
  split at h
  · rename_i heq
    rw [heq, h.1, h.2]
  · exact h.elim

/-- A node is added behind the others. -/
theorem ends_add_push {op : Op} {d : DType} {axes : List Axis} {operands : List Operand}
    (hne : operands.filterMap Operand.node? ≠ [])
    (hgraph : ∀ x ∈ operands.filterMap Operand.node?, x.graph = g) (hvalid : ∀ a ∈ axes, a.Valid) :
    (add none op d axes operands).Ends w (fun r w' => r = w.nextRef g ∧
      w' = w.push g ⟨"", op, operands, d, axes⟩) fun _ => False := by
  have howner : Workspace.owner op.kind none (operands.filterMap Operand.node?) = .ok g := by
    obtain ⟨x, xs, hxs⟩ := List.exists_cons_of_ne_nil hne
    rw [hxs] at hgraph ⊢
    rw [Workspace.owner, hgraph x (by simp)]
    exact Workspace.owner_eq_ok fun y hy => hgraph y (by simp [hy])
  have hfind : axes.find? (fun a => ¬a.Valid) = none :=
    List.find?_eq_none.2 fun a ha => by simpa using hvalid a ha
  simp only [add, ends_bind, ends_get, ends_lift, howner, hfind, ends_set, ends_pure,
    Workspace.nextRef, and_self]

end Build

/-! ## A node that only its store reads -/

namespace Run

theorem Spares.tensor_mem {r base : Run} {nodes : List NodeRef} (h : r.Spares nodes base)
    (hbase : ∀ m ∈ base.emissions, m.tensor ∈ nodes) : ∀ m ∈ r.emissions, m.tensor ∈ nodes := by
  intro m hm
  by_contra hnot
  have hmem : m ∈ r.emissions.filter (·.tensor ∉ nodes) :=
    List.mem_filter.2 ⟨hm, by simpa using hnot⟩
  rw [h.emissions] at hmem
  obtain ⟨hm, hnot⟩ := List.mem_filter.1 hmem
  simp [hbase m hm] at hnot

/-- The node was found to hold something, nothing is written into it, and it has a single reader. -/
structure Lone (r : Run) (n : NodeRef) (content : Content) : Prop where
  size : n.index < r.entries.size
  readers : (r.entry n).readers = 1
  settings : (r.entry n).settings = []
  padding : ∃ p, (r.entry n).padding = some p ∧ p.content = content

/-- The state in which the scalar, if there is one, is written into the node for all readers. -/
def storeFill (r : Run) (n : NodeRef) : Option Scalar → Run
  | none => r
  | some v => r.write none n (.constant v) false

variable {r r' : Run} {n n' : NodeRef} {content : Content}

theorem Lone.congr {s : Run} (h : r.Lone n content) (hsize : s.entries.size = r.entries.size)
    (hentry : s.entry n = r.entry n) : s.Lone n content :=
  ⟨hsize ▸ h.size, hentry ▸ h.readers, hentry ▸ h.settings, hentry ▸ h.padding⟩

theorem lone_store (hsize : n.index < r.entries.size) (hreaders : (r.entry n).readers = 1)
    (hsettings : (r.entry n).settings = []) (content : Content) :
    (r.store n content).Lone n content := by
  have hentry : (r.store n content).entry n =
      { r.entry n with padding := some ⟨content, some n, []⟩ } := by
    rw [entry_store hsize, if_pos rfl]
  refine ⟨by rwa [size_store], ?_, ?_, ⟨content, some n, []⟩, ?_, rfl⟩
  · rw [hentry, hreaders]
  · rw [hentry, hsettings]
  · rw [hentry]

theorem spares_store (hsize : n.index < r.entries.size) (content : Content) :
    (r.store n content).Spares [n] r := by
  refine ⟨size_store .., fun y hy => ?_, rfl⟩
  rw [entry_store hsize, if_neg (hy n (by simp))]

theorem Lone.exists_read (h : r.Lone n content) :
    ∃ p, r.read n none = some p ∧ p.content = content := by
  obtain ⟨p, hp, hcontent⟩ := h.padding
  refine ⟨p, ?_, hcontent⟩
  rw [read, Entry.read, Entry.source?, h.settings]
  exact hp

theorem Lone.entry_write (h : r.Lone n content) (v : Scalar) :
    (r.write none n (.constant v) false).entry n =
      { r.entry n with settings := [⟨.normal, .constant v, [], []⟩] } := by
  rw [Run.entry_write h.size, if_pos rfl, Entry.write, Entry.settingOf?, h.settings]
  rfl

/-- How a lone node is stored depends on what it holds only. -/
theorem Lone.yields_requireOutput {w : Workspace} (h : r.Lone n content) {s : Run} :
    (RunM.requireOutput w n).Yields r () s ↔
      (w.node n).hasPadding = false ∧ s = r ∨
      (w.node n).hasPadding = true ∧ ∃ zero, Scalar.zero (w.node n).dtype = .ok zero ∧
        s = r.storeFill n (if PaddingValue.isExact ⟨content, none, []⟩ zero = true then none
          else some zero) := by
  obtain ⟨p, hread, rfl⟩ := h.exists_read
  have hreaders : ¬1 < (r.entry n).readers := by
    rw [h.readers]
    omega
  have hexact : ∀ zero, PaddingValue.isExact ⟨p.content, none, []⟩ zero = p.isExact zero :=
    fun _ => rfl
  rw [RunM.yields_requireOutput]
  simp only [hreaders, if_false, decide_false, hread, Option.some.injEq, hexact]
  refine or_congr_right (and_congr_right fun _ => ?_)
  constructor
  · rintro ⟨zero, _, hzero, rfl, ⟨hholds, rfl⟩ | ⟨hother, hrecord⟩⟩
    · exact ⟨zero, hzero, by simp [hholds, storeFill]⟩
    · obtain ⟨-, _, hcurrent, rfl⟩ := RunM.yields_record_constant.1 hrecord
      obtain rfl := Option.some.inj (hread.symm.trans hcurrent)
      exact ⟨zero, hzero, by simp [hother, storeFill]⟩
  · rintro ⟨zero, hzero, rfl⟩
    refine ⟨zero, p, hzero, rfl, ?_⟩
    by_cases hholds : p.isExact zero = true
    · exact .inl ⟨hholds, by simp [hholds, storeFill]⟩
    · have hother : p.isExact zero = false := by simpa using hholds
      have hdtype : zero.dtype = (w.node n).dtype := by rw [Scalar.eq_of_zero hzero]
      exact .inr ⟨hother, RunM.yields_record_constant.2
        ⟨hdtype, p, hread, by simp [hother, storeFill]⟩⟩

/-- **Two lone nodes that hold the same are stored in the same way.** -/
theorem exists_store_of_lone {w w' : Workspace} (h : r.Lone n content) (h' : r'.Lone n' content)
    (hdtype : (w'.node n').dtype = (w.node n).dtype) (haxes : (w'.node n').axes = (w.node n).axes) :
    (∃ fill, (RunM.requireOutput w n).Yields r () (r.storeFill n fill) ∧
      (RunM.requireOutput w' n').Yields r' () (r'.storeFill n' fill)) ∨
    (RunM.requireOutput w n).Fails r ∧ (RunM.requireOutput w' n').Fails r' := by
  have hpadding : (w'.node n').hasPadding = (w.node n).hasPadding := by
    rw [Node.hasPadding, Node.hasPadding, haxes]
  simp only [RunM.Fails, h.yields_requireOutput, h'.yields_requireOutput, hpadding, hdtype]
  cases hpadded : (w.node n).hasPadding with
  | false => exact .inl ⟨none, .inl ⟨rfl, rfl⟩, .inl ⟨rfl, rfl⟩⟩
  | true =>
    cases hzero : Scalar.zero (w.node n).dtype with
    | error e => exact .inr ⟨by simp, by simp⟩
    | ok zero => exact .inl ⟨_, .inr ⟨rfl, zero, rfl, rfl⟩, .inr ⟨rfl, zero, rfl, rfl⟩⟩

/-- What is written into a lone node is a new action. -/
theorem actions_storeFill (h : r.Lone n content)
    (hothers : ∀ m ∈ r.emissions, n.index ≠ m.tensor.index) (fill : Option Scalar) :
    (r.storeFill n fill).actions = r.actions ++ fill.toList.map fun v => ⟨n, .constant v, []⟩ := by
  cases fill with
  | none => simp [storeFill]
  | some v =>
    have hnew : r.newEmissions n (.constant v) false = [⟨n, 0⟩] := by
      rw [newEmissions, Entry.settingOf?, h.settings]
      rfl
    have hkept : ∀ m ∈ r.emissions, (r.write none n (.constant v) false).action? m =
        r.action? m := by
      intro m hm
      rw [action?, action?, Run.entry_write h.size, if_neg (hothers m hm)]
    have hadded : (r.write none n (.constant v) false).action? ⟨n, 0⟩ =
        some ⟨n, .constant v, []⟩ := by
      rw [action?, h.entry_write]
      rfl
    rw [storeFill, actions_eq, emissions_write, hnew, List.filterMap_append,
      List.filterMap_congr hkept, ← actions_eq]
    simp [hadded]

end Run

/-! ## One step -/

namespace Engine

variable {engine : Engine} {w : Workspace} {n : NodeRef} {r t : Run} {p : PaddingValue}

/-- A node on which nobody may fault is simulated. -/
theorem yields_step_of_simulate (h : (RunM.simulate w engine n).Yields r p t)
    (hfits : p.content.Fits (w.node n).dtype) (hsize : n.index < t.entries.size)
    (hquiet : t.sensitive w n = []) :
    (engine.step w n).Yields r () (t.store n p.content) := by
  have hsensitive : (t.store n p.content).sensitive w n = [] := by
    rw [Run.sensitive, Run.entry_store hsize, if_pos rfl]
    exact hquiet
  exact RunM.yields_bind.2 ⟨(), _, Run.yields_visit.2 ⟨p, t, h, hfits, rfl⟩,
    RunM.yields_requireSafe.2 (.inl ⟨hsensitive, rfl⟩)⟩

theorem fails_step_of_not_fits (h : (RunM.simulate w engine n).Yields r p t)
    (hfits : ¬p.content.Fits (w.node n).dtype) : (engine.step w n).Fails r := by
  refine RunM.Fails.bind (fun u s hvisit => ?_) _
  obtain ⟨p', t', hp', hfits', -⟩ := Run.yields_visit.1 hvisit
  obtain ⟨rfl, rfl⟩ := h.unique hp'
  exact hfits hfits'

theorem fails_step_of_simulate (h : (RunM.simulate w engine n).Fails r) :
    (engine.step w n).Fails r :=
  (h.bind _).bind _

end Engine

/-! ## Operands of the same axes -/

/-- What a consumer of the same axes finds in an operand. -/
def Run.glance (r : Run) (c : NodeRef) : Operand → Option PaddingValue
  | .scalar v => some (.exact v)
  | .symbol _ _ => some .dependent
  | .node x => r.read x (some c)

/-- What a comparison finds whose operands have the same axes as itself. -/
def Run.Compared (r : Run) (platform : Platform) (mode : CompareMode) (c : NodeRef) (a b : Operand)
    (p : PaddingValue) :
    Prop :=
  ∃ pa pb, r.glance c a = some pa ∧ r.glance c b = some pb ∧
    platform.comparePadding mode pa pb = .ok p

theorem Run.Compared.unique {r : Run} {platform : Platform} {mode : CompareMode} {c : NodeRef}
    {a b : Operand} {p q : PaddingValue} (hp : r.Compared platform mode c a b p)
    (hq : r.Compared platform mode c a b q) : p = q := by
  obtain ⟨pa, pb, ha, hb, hp⟩ := hp
  obtain ⟨qa, qb, ha', hb', hq⟩ := hq
  obtain rfl := Option.some.inj (ha.symm.trans ha')
  obtain rfl := Option.some.inj (hb.symm.trans hb')
  exact Except.ok.inj (hp.symm.trans hq)

/-- Between equal axes, no lane is replicated. -/
theorem Node.isBroadcast_of_axes_eq {c x : Node} (h : x.axes = c.axes) {a : AlignedAxis}
    (ha : a ∈ c.alignedAxes x) :
    a.isBroadcast = false := by
  obtain ⟨i, -, rfl⟩ := List.mem_map.1 ha
  rw [AlignedAxis.isBroadcast, h, rank, expandToRank_length, Axis.isBroadcast]
  simp only [Bool.and_eq_false_imp, decide_eq_true_eq, Bool.or_eq_false_iff,
    decide_eq_false_iff_not]
  omega

theorem Workspace.laneFix_of_axes_eq {w : Workspace} {c x : NodeRef}
    (h : (w.node x).axes = (w.node c).axes) :
    w.laneFix c x = [] := by
  have hreplicated : (w.node c).replicatedAxes (w.node x) = [] :=
    List.filterMap_eq_nil_iff.2 fun a ha => by simp [Node.isBroadcast_of_axes_eq h ha]
  rw [laneFix, hreplicated]
  rfl

namespace RunM

variable {w : Workspace} {c : NodeRef} {r s : Run}

theorem yields_view_of_axes_eq {a : Operand}
    (h : ∀ x, a = .node x → (w.node x).axes = (w.node c).axes) {o : Option PaddingValue} :
    (view w c a).Yields r o s ↔ o = r.glance c a ∧ s = r := by
  cases a with
  | scalar v => exact yields_pure
  | symbol name d => exact yields_pure
  | node x =>
    have hinto : (w.node c).axesIntoPadding (w.node x) = [] :=
      List.filterMap_eq_nil_iff.2 fun a ha => by simp [Node.isBroadcast_of_axes_eq (h x rfl) ha]
    rw [view_node, if_pos (Workspace.laneFix_of_axes_eq (h x rfl)), look, yields_get_bind, hinto]
    exact yields_pure

/-- Two operands of the same element type are looked at one after the other. -/
theorem yields_viewPair {a b : Operand} {rest : List Operand} {op : OpKind}
    (hoperands : (w.node c).operands = a :: b :: rest)
    (hdtype : w.operandDType a = w.operandDType b) {o : Option PaddingValue × Option PaddingValue} :
    (viewPair w c op).Yields r o s ↔ ∃ t, (view w c a).Yields r o.1 t ∧
      (view w c b).Yields t o.2 s := by
  simp only [viewPair, hoperands, yields_bind, yields_operand, List.getElem?_cons_zero,
    List.getElem?_cons_succ, yields_guard, not_not, yields_pure, Option.some.injEq]
  constructor
  · rintro ⟨_, _, ⟨rfl, rfl⟩, _, _, ⟨rfl, rfl⟩, -, _, t, hleft, _, _, hright, rfl, rfl⟩
    exact ⟨t, hleft, hright⟩
  · rintro ⟨t, hleft, hright⟩
    exact ⟨_, _, ⟨rfl, rfl⟩, _, _, ⟨rfl, rfl⟩, hdtype, _, t, hleft, _, _, hright, rfl, rfl⟩

/-- Two operands of the same axes are looked at, and nothing is demanded of them. -/
theorem yields_viewPair_of_axes_eq {a b : Operand} {rest : List Operand} {op : OpKind}
    (hoperands : (w.node c).operands = a :: b :: rest)
    (hdtype : w.operandDType a = w.operandDType b)
    (haxes : ∀ x, .node x ∈ [a, b] → (w.node x).axes = (w.node c).axes)
    {o : Option PaddingValue × Option PaddingValue} :
    (viewPair w c op).Yields r o s ↔ o = (r.glance c a, r.glance c b) ∧ s = r := by
  have ha : ∀ {r s : Run} {o}, (view w c a).Yields r o s ↔ o = r.glance c a ∧ s = r :=
    yields_view_of_axes_eq fun x hx => haxes x (by simp [hx])
  have hb : ∀ {r s : Run} {o}, (view w c b).Yields r o s ↔ o = r.glance c b ∧ s = r :=
    yields_view_of_axes_eq fun x hx => haxes x (by simp [hx])
  rw [yields_viewPair hoperands hdtype]
  constructor
  · rintro ⟨t, hleft, hright⟩
    obtain ⟨hleft, rfl⟩ := ha.1 hleft
    obtain ⟨hright, rfl⟩ := hb.1 hright
    exact ⟨Prod.ext hleft hright, rfl⟩
  · rintro ⟨rfl, rfl⟩
    exact ⟨_, ha.2 ⟨rfl, rfl⟩, hb.2 ⟨rfl, rfl⟩⟩

/-- Two operands of the same axes are compared. -/
theorem yields_simulateCompare_of_axes_eq {a b : Operand} {rest : List Operand}
    {engine : Engine} {op : OpKind} {mode : CompareMode}
    (hoperands : (w.node c).operands = a :: b :: rest)
    (hdtype : w.operandDType a = w.operandDType b)
    (haxes : ∀ x, .node x ∈ [a, b] → (w.node x).axes = (w.node c).axes) {p : PaddingValue} :
    (simulateCompare w engine c op mode).Yields r p s ↔
      r.Compared engine.platform mode c a b p ∧ s = r := by
  simp only [simulateCompare, yields_bind, yields_viewPair_of_axes_eq hoperands hdtype haxes,
    yields_need, yields_lift]
  constructor
  · rintro ⟨_, _, ⟨rfl, rfl⟩, pa, _, ⟨ha, rfl⟩, pb, _, ⟨hb, rfl⟩, hp, rfl⟩
    exact ⟨⟨pa, pb, ha, hb, hp⟩, rfl⟩
  · rintro ⟨⟨pa, pb, ha, hb, hp⟩, rfl⟩
    exact ⟨_, _, ⟨rfl, rfl⟩, pa, _, ⟨ha, rfl⟩, pb, _, ⟨hb, rfl⟩, hp, rfl⟩

end RunM

end LanePadding
