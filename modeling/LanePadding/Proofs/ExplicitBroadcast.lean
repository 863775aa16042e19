import Mathlib.Order.MinMax
import LanePadding.Proofs.Extensions

/-!
# Replicating an operand beforehand

A binary function replicates the lanes of an operand whose axes are smaller.  The lanes can as well
be replicated by a node of its own, so that the function reads two operands of the same axes.  The
two graphs are analysed alike: copies of lane 0 that the function needs are then needed by the
replication, and what the function finds in the smaller operand is what the replication holds.

## What is here

* `Workspace.BroadcastOperands` — the operands of a binary function, one of which has the axes of
  the function.
* `Pairing.Compares.leads_broadcast` — where the added nodes are simulated, the analyses agree.
* `Engine.analyze_binary_iff_broadcast` — implicit and explicit replication are analysed alike.
-/

set_option autoImplicit false

namespace LanePadding

/-! ## Shapes -/

namespace Workspace

variable {w : Workspace} {op : OpKind} {x y : NodeRef}

theorem broadcastShape_pair : w.broadcastShape op [.node x, .node y] =
    joinAxes op y 0 (expandToRank (w.node x).axes (max (w.node x).rank (w.node y).rank))
      (expandToRank (w.node y).axes (max (w.node x).rank (w.node y).rank)) := by
  simp [broadcastShape, maxRank, Operand.node?]

end Workspace

theorem Build.badAxis?_eq_none {i : Nat} {axes targets : List Axis}
    (h : List.Forall₂ Axis.Fits axes targets) :
    badAxis? i axes targets = none := by
  induction h generalizing i with
  | nil => rfl
  | cons hfits _ ih =>
    rw [badAxis?, if_neg fun hbad => hfits.elim hbad.1 hbad.2]
    exact ih

/-! ## Graphs -/

/-- Two things in either order. -/
def inOrder {α : Type} (flip : Bool) (a b : α) : List α := if flip then [b, a] else [a, b]

theorem mem_inOrder {α : Type} {flip : Bool} {a b c : α} :
    c ∈ inOrder flip a b ↔ c = a ∨ c = b := by
  cases flip
  · simp [inOrder]
  · simp [inOrder, or_comm]

theorem mem_nodes_inOrder {flip : Bool} {x y z : NodeRef} :
    z ∈ (inOrder flip (.node x) (.node y)).filterMap Operand.node? ↔ z = x ∨ z = y := by
  rw [Operand.mem_filterMap_node?, mem_inOrder, Operand.node.injEq, Operand.node.injEq]

/-- A binary function of two operands in either order. -/
def Build.binaryInOrder (flip : Bool) (op : OpKind) (a b : Operand) : Build NodeRef :=
  if flip then binary op b a else binary op a b

namespace Node

def binaryOf (fn : BinaryFn) (operands : List Operand) (d : DType) (axes : List Axis) : Node :=
  ⟨"", .binary fn, operands, d, axes⟩

def broadcastOf (x : NodeRef) (d : DType) (axes : List Axis) :
    Node := ⟨"", .broadcast, [.node x], d, axes⟩

end Node

namespace Build

variable {w : Workspace} {g : Nat} {fn : BinaryFn} {a b : NodeRef} {d : DType} {axes : List Axis}

theorem binary_on (hgraph : a.graph = g ∧ b.graph = g)
    (hdtype : (w.node a).dtype = d ∧ (w.node b).dtype = d)
    (hshape : w.broadcastShape (.binary fn) [.node a, .node b] = .ok axes)
    (hvalid : ∀ a ∈ axes, a.Valid) :
    (binary (.binary fn) (.node a) (.node b)).on w =
      (.ok (w.nextRef g), w.push g (.binaryOf fn [.node a, .node b] d axes)) := by
  have hcommon : w.commonDType (.binary fn) (.node a) [.node b] = .ok (w.node a).dtype :=
    Workspace.commonDType_of_eq (hdtype.1.trans hdtype.2.symm)
  apply on_eq_of_ends
  simp only [binary, ends_bind, ends_get, ends_lift, hcommon, hshape, hdtype.1]
  exact ends_add_push (by simp [Operand.node?]) (by simp [Operand.node?, hgraph]) hvalid

theorem binaryInOrder_on {flip : Bool} (hgraph : a.graph = g ∧ b.graph = g)
    (hdtype : (w.node a).dtype = d ∧ (w.node b).dtype = d)
    (hshape : w.broadcastShape (.binary fn) (inOrder flip (.node a) (.node b)) = .ok axes)
    (hvalid : ∀ a ∈ axes, a.Valid) :
    (binaryInOrder flip (.binary fn) (.node a) (.node b)).on w =
      (.ok (w.nextRef g), w.push g (.binaryOf fn (inOrder flip (.node a) (.node b)) d axes)) := by
  cases flip with
  | false => exact binary_on hgraph hdtype hshape hvalid
  | true => exact binary_on hgraph.symm hdtype.symm hshape hvalid

theorem built_binaryInOrder (hw : w.Built) (flip : Bool) (op : OpKind) (hhas : w.Has a ∧ w.Has b) :
    ((binaryInOrder flip op (.node a) (.node b)).on w).2.Built := by
  cases flip with
  | false =>
    exact hw.call (.binary op (.node a) (.node b))
      (by simp [BuilderCall.mentions, Operand.node?, hhas])
  | true =>
    exact hw.call (.binary op (.node b) (.node a))
      (by simp [BuilderCall.mentions, Operand.node?, hhas])

end Build

/-- The operands `x` and `y` of a binary function that has the axes of `y`. -/
structure Workspace.BroadcastOperands (w : Workspace) (g : Nat) (fn : BinaryFn) (x y : NodeRef) :
    Prop where
  graph : x.graph = g ∧ y.graph = g
  has : w.Has x ∧ w.Has y
  dtype : (w.node x).dtype = (w.node y).dtype
  shape : w.broadcastShape (.binary fn) [.node x, .node y] = .ok (w.node y).axes

namespace Workspace

/-- A binary function with the axes of its operand `y` is added. -/
def withBinary (w : Workspace) (g : Nat) (fn : BinaryFn) (flip : Bool) (x y : NodeRef) :
    Workspace :=
  w.push g (.binaryOf fn (inOrder flip (.node x) (.node y)) (w.node y).dtype (w.node y).axes)

/-- A replication to the axes of `y` is added. -/
def withBroadcast (w : Workspace) (g : Nat) (x y : NodeRef) : Workspace :=
  w.push g (.broadcastOf x (w.node y).dtype (w.node y).axes)

end Workspace

namespace Workspace.BroadcastOperands

variable {w : Workspace} {g : Nat} {fn : BinaryFn} {x y : NodeRef}
  (h : w.BroadcastOperands g fn x y)

include h

theorem lt_size : g < w.graphs.size := by
  rw [← h.graph.1]
  exact lt_size_of_has h.has.1

theorem rank_le : (w.node x).rank ≤ (w.node y).rank := by
  have hshape := h.shape
  rw [broadcastShape_pair] at hshape
  have hlength : (expandToRank (w.node y).axes (max (w.node x).rank (w.node y).rank)).length =
      max (w.node x).rank (w.node y).rank := length_expandToRank (le_max_right ..)
  have hfits := (fits_of_joinAxes (by
    rw [hlength]
    exact length_expandToRank (le_max_left ..)) hshape).2.length_eq
  rw [hlength] at hfits
  exact max_eq_right_iff.1 hfits

/-- The axes of `x` are joined to those of `y`. -/
theorem joinAxes_eq :
    joinAxes (.binary fn) y 0 (expandToRank (w.node x).axes (w.node y).axes.length)
      (w.node y).axes = .ok (w.node y).axes := by
  have hshape := h.shape
  rwa [broadcastShape_pair, max_eq_right h.rank_le, Node.rank, expandToRank_length] at hshape

theorem length_eq : (expandToRank (w.node x).axes (w.node y).axes.length).length =
      (w.node y).axes.length :=
  length_expandToRank h.rank_le

theorem shape_inOrder (flip : Bool) :
    w.broadcastShape (.binary fn) (inOrder flip (.node x) (.node y)) = .ok (w.node y).axes := by
  cases flip with
  | false => exact h.shape
  | true =>
    refine broadcastShape_congr (fun z => ?_) h.shape
    simp [inOrder, Operand.node?, or_comm]

theorem binary_on (hw : w.WellFormed) (flip : Bool) :
    (Build.binaryInOrder flip (.binary fn) (.node x) (.node y)).on w =
      (.ok (w.nextRef g), w.withBinary g fn flip x y) :=
  Build.binaryInOrder_on h.graph ⟨h.dtype, rfl⟩ (h.shape_inOrder flip) (hw y h.has.2).valid

theorem broadcast_on (hw : w.WellFormed) : (Build.broadcast x (w.node y).axes).on w =
    (.ok (w.nextRef g), w.withBroadcast g x y) := by
  have hrank : ¬(w.node y).axes.length < (w.node x).rank := Nat.not_lt.2 h.rank_le
  have hbad : Build.badAxis? 0 (expandToRank (w.node x).axes (w.node y).axes.length)
      (w.node y).axes = none :=
    Build.badAxis?_eq_none (fits_of_joinAxes h.length_eq h.joinAxes_eq).1
  apply Build.on_eq_of_ends
  simp only [Build.broadcast, Build.ends_bind, Build.ends_get, hrank, if_false, hbad, h.dtype]
  exact Build.ends_add_push (by simp [Operand.node?]) (by simp [Operand.node?, h.graph])
    (hw y h.has.2).valid

theorem node_broadcast :
    (w.withBroadcast g x y).node (w.nextRef g) = .broadcastOf x (w.node y).dtype (w.node y).axes :=
  node_push_self h.lt_size

theorem node_broadcast_right : (w.withBroadcast g x y).node y = w.node y := node_push h.has.2

/-- The replicated operand has the axes of the other one. -/
theorem broadcast : (w.withBroadcast g x y).BroadcastOperands g fn (w.nextRef g) y := by
  have haxes : ((w.withBroadcast g x y).node (w.nextRef g)).axes = (w.node y).axes := by
    rw [h.node_broadcast]
    rfl
  constructor
  case graph => exact ⟨rfl, h.graph.2⟩
  case has => exact ⟨has_nextRef h.lt_size, has_push_of_has h.has.2⟩
  case dtype =>
    rw [h.node_broadcast, h.node_broadcast_right]
    rfl
  case shape =>
    rw [h.node_broadcast_right]
    refine broadcastShape_of_axes_eq (by simp [Operand.node?]) ?_
    simp only [List.filterMap_cons, Operand.node?, List.filterMap_nil, List.mem_cons,
      List.not_mem_nil, or_false, forall_eq_or_imp, forall_eq, haxes,
      h.node_broadcast_right, and_self]

theorem node_binary (flip : Bool) : (w.withBinary g fn flip x y).node (w.nextRef g) =
    .binaryOf fn (inOrder flip (.node x) (.node y)) (w.node y).dtype (w.node y).axes :=
  node_push_self h.lt_size

theorem built_binary (hw : w.Built) (flip : Bool) : (w.withBinary g fn flip x y).Built := by
  have hbuilt := Build.built_binaryInOrder hw flip (.binary fn) h.has
  rwa [h.binary_on hw.wellFormed flip] at hbuilt

theorem built_broadcast (hw : w.Built) : (w.withBroadcast g x y).Built := by
  have hbuilt := hw.call (.broadcast x (w.node y).axes) (by simp [BuilderCall.mentions, h.has])
  rwa [BuilderCall.build, h.broadcast_on hw.wellFormed] at hbuilt

theorem mem_inputs {flip : Bool} {z : NodeRef}
    (hz : z ∈ (inOrder flip (.node x) (.node y)).filterMap Operand.node?) :
    z.graph = g ∧ w.Has z := by
  rcases mem_nodes_inOrder.1 hz with rfl | rfl
  · exact ⟨h.graph.1, h.has.1⟩
  · exact ⟨h.graph.2, h.has.2⟩

theorem adds_binary (flip : Bool) :
    w.Adds g ((inOrder flip (.node x) (.node y)).filterMap Operand.node?)
      (w.withBinary g fn flip x y) [w.nextRef g] (w.nextRef g) := by
  have hinputs : ∀ z ∈ (Node.binaryOf fn (inOrder flip (.node x) (.node y)) (w.node y).dtype
      (w.node y).axes).inputs, z.graph = g ∧ w.Has z := fun z hz => h.mem_inputs hz
  exact adds_push h.lt_size hinputs

theorem adds_broadcast (flip : Bool) :
    w.Adds g ((inOrder flip (.node x) (.node y)).filterMap Operand.node?)
      ((w.withBroadcast g x y).withBinary g fn flip (w.nextRef g) y)
      [w.nextRef g, (w.withBroadcast g x y).nextRef g] ((w.withBroadcast g x y).nextRef g) := by
  refine adds_push_push h.lt_size (fun z hz => ?_) (fun z hz => ?_) (fun z hz => ?_)
    (mem_nodes_inOrder.2 (.inl rfl))
  · obtain ⟨hgraph, hhas⟩ := h.mem_inputs hz
    refine ⟨hgraph, hhas, ?_⟩
    rcases mem_nodes_inOrder.1 hz with rfl | rfl
    · exact .inl (List.mem_singleton_self z)
    · exact .inr (mem_nodes_inOrder.2 (.inr rfl))
  · exact mem_nodes_inOrder.2 (.inl (List.mem_singleton.1 hz))
  · exact (mem_nodes_inOrder.1 hz).imp_right fun hz => mem_nodes_inOrder.2 (.inr hz)

end Workspace.BroadcastOperands

theorem FaultRule.of?_binaryOf {fn : BinaryFn} (hfn : fn ≠ .div)
    {operands : List Operand} {d : DType} {axes : List Axis} {x : NodeRef} :
    of? (.binaryOf fn operands d axes) x = none := by
  cases fn with
  | div => exact absurd rfl hfn
  | _ => rfl

/-! ## Simulating the added nodes -/

/-- What the lanes of a binary function hold, whose operands are in either order. -/
def Platform.binaryInOrder (platform : Platform) (flip : Bool) (op : OpKind) (p q : PaddingValue) :
    Except RunError PaddingValue :=
  if flip then platform.binaryPadding op q p else platform.binaryPadding op p q

/-- The result depends on the contents only. -/
theorem Platform.exists_binaryInOrder {platform : Platform} {flip : Bool} {op : OpKind}
    {o o' : Option PaddingValue} {p p' a : PaddingValue}
    (ho : o.map PaddingValue.content = o'.map PaddingValue.content) (hp : p.content = p'.content)
    (h : ∃ q, o = some q ∧ platform.binaryInOrder flip op p q = .ok a) :
    ∃ q, o' = some q ∧ platform.binaryInOrder flip op p' q = .ok a := by
  obtain ⟨q, rfl, hq⟩ := h
  obtain ⟨q', rfl, hcontent⟩ := Option.map_eq_some_iff.1 ho.symm
  refine ⟨q', rfl, ?_⟩
  simpa only [binaryInOrder, binaryPadding, ← hp, hcontent] using hq

namespace RunM

variable {w : Workspace} {engine : Engine} {n x y : NodeRef} {fn : BinaryFn}
  {flip : Bool} {d : DType} {axes : List Axis} {before after : Run} {p : PaddingValue}

theorem yields_simulate_broadcastOf (hnode : w.node n = .broadcastOf x d axes) :
    (simulate w engine n).Yields before p after ↔
      (view w n (.node x)).Yields before (some p) after := by
  simp only [simulate, hnode, Node.broadcastOf, yields_bind, yields_operand, yields_need,
    List.getElem?_cons_zero, Option.some.injEq]
  constructor
  · rintro ⟨_, _, ⟨rfl, rfl⟩, _, _, hview, rfl, rfl⟩
    exact hview
  · exact fun hview => ⟨_, _, ⟨rfl, rfl⟩, _, _, hview, rfl, rfl⟩

theorem yields_simulate_binaryOf {a b : Operand} (hnode : w.node n = .binaryOf fn [a, b] d axes)
    (hdtype : w.operandDType a = w.operandDType b) :
    (simulate w engine n).Yields before p after ↔
      ∃ pa pb between, (view w n a).Yields before (some pa) between ∧
      (view w n b).Yields between (some pb) after ∧
      engine.platform.binaryPadding (.binary fn) pa pb = .ok p := by
  have hpair : ∀ {o s}, (viewPair w n (.binary fn)).Yields before o s ↔
      ∃ t, (view w n a).Yields before o.1 t ∧ (view w n b).Yields t o.2 s :=
    yields_viewPair (by rw [hnode]; rfl) hdtype
  simp only [simulate, hnode, Node.binaryOf, yields_bind, hpair, yields_need, yields_lift]
  constructor
  · rintro ⟨⟨_, _⟩, _, ⟨between, hleft, hright⟩, pa, _, ⟨rfl, rfl⟩, pb, _, ⟨rfl, rfl⟩, hp, rfl⟩
    exact ⟨pa, pb, between, hleft, hright, hp⟩
  · rintro ⟨pa, pb, between, hleft, hright, hp⟩
    exact ⟨(some pa, some pb), _, ⟨between, hleft, hright⟩, pa, _, ⟨rfl, rfl⟩, pb, _,
      ⟨rfl, rfl⟩, hp, rfl⟩

/-- The operand `y` is just read, before or after the other one is looked at. -/
theorem yields_simulate_inOrder
    (hnode : w.node n = .binaryOf fn (inOrder flip (.node x) (.node y)) d axes)
    (hdtype : (w.node x).dtype = (w.node y).dtype) (haxes : (w.node y).axes = axes)
    (hkept : ∀ o after, (view w n (.node x)).Yields before o after →
      (after.read y (some n)).map PaddingValue.content =
        (before.read y (some n)).map PaddingValue.content) :
    (simulate w engine n).Yields before p after ↔
      ∃ px py, (view w n (.node x)).Yields before (some px) after ∧
      before.read y (some n) = some py ∧
      engine.platform.binaryInOrder flip (.binary fn) px py = .ok p := by
  have hview : ∀ {o r s}, (view w n (.node y)).Yields r o s ↔ o = r.read y (some n) ∧ s = r :=
    yields_view_of_axes_eq fun z hz => by rw [← Operand.node.inj hz, haxes, hnode]; rfl
  cases flip with
  | false =>
    rw [yields_simulate_binaryOf hnode hdtype]
    constructor
    · rintro ⟨px, py, between, hx, hy, hp⟩
      obtain ⟨hy, rfl⟩ := hview.1 hy
      obtain ⟨py', hy', hp'⟩ :=
        @Platform.exists_binaryInOrder _ false _ _ _ _ _ _ (hkept _ _ hx) rfl ⟨py, hy.symm, hp⟩
      exact ⟨px, py', hx, hy', hp'⟩
    · rintro ⟨px, py, hx, hy, hp⟩
      obtain ⟨py', hy', hp'⟩ := Platform.exists_binaryInOrder (hkept _ _ hx).symm rfl ⟨py, hy, hp⟩
      exact ⟨px, py', after, hx, hview.2 ⟨hy'.symm, rfl⟩, hp'⟩
  | true =>
    rw [yields_simulate_binaryOf hnode hdtype.symm]
    constructor
    · rintro ⟨py, px, between, hy, hx, hp⟩
      obtain ⟨hy, rfl⟩ := hview.1 hy
      exact ⟨px, py, hx, hy.symm, hp⟩
    · rintro ⟨px, py, hx, hy, hp⟩
      exact ⟨py, px, before, hview.2 ⟨hy.symm, rfl⟩, hx, hp⟩

/-- Looking at an operand changes nobody's reading. -/
theorem content_read_of_view {g : Nat} (hknows : before.Knows w g n) {a : Operand}
    (ha : a ∈ (w.node n).operands) {o : Option PaddingValue}
    (h : (view w n a).Yields before o after) (z : NodeRef) (c : Option NodeRef) :
    (after.read z c).map PaddingValue.content = (before.read z c).map PaddingValue.content := by
  have hclone := congrArg (Option.map PaddingValue.content) ((view_spec hknows ha h).1.read_eq z c)
  rwa [Option.map_map, Option.map_map] at hclone

/-- What is seen in an operand is of its element type. -/
theorem fits_of_view {g : Nat} (hknows : before.Knows w g n) (hx : .node x ∈ (w.node n).operands)
    (hfits : ∀ q, before.read x (some n) = some q → q.content.Fits d)
    (h : (view w n (.node x)).Yields before (some p) after) : p.content.Fits d := by
  intro v hv
  have hsees : (before.sees w n (.node x)).map PaddingValue.content = some (.exact v) := by
    rw [← (view_spec hknows hx h).2, ← hv]
    rfl
  rw [Run.sees] at hsees
  split at hsees
  · rw [Option.map_map] at hsees
    obtain ⟨q, hq, hexact⟩ := Option.map_eq_some_iff.1 hsees
    exact hfits q hq v hexact
  · -- lanes that hold copies of real data are not exact
    split at hsees
    · rw [Option.map_map] at hsees
      obtain ⟨q, -, hexact⟩ := Option.map_eq_some_iff.1 hsees
      rw [Function.comp_apply, PaddingValue.meetData] at hexact
      split at hexact
      · exact Content.noConfusion hexact
      · exact Content.noConfusion hexact
    · exact Content.noConfusion (Option.some.inj hsees)

end RunM

/-- The added nodes: a binary function of `x` and `y` on the left, and on the right a replication of
`x` and the function of that and `y`. -/
structure Pairing.Broadcasts (P : Pairing) (fn : BinaryFn) (flip : Bool) (d : DType)
    (axes : List Axis) (x y n m : NodeRef) : Prop where
  rename : P.rename = id
  binary : P.left.node n = .binaryOf fn (inOrder flip (.node x) (.node y)) d axes
  broadcast : P.right.node n = .broadcastOf x d axes
  last : P.right.node m = .binaryOf fn (inOrder flip (.node n) (.node y)) d axes
  mem : x ∈ P.nodes ∧ y ∈ P.nodes
  dtype : (P.left.node x).dtype = d ∧ (P.left.node y).dtype = d
  axes_eq : (P.left.node y).axes = axes
  counted : P.counted x ∨ P.left.laneFix n x = []

namespace Pairing.Broadcasts

variable {P : Pairing} {n m x y z : NodeRef} {fn : BinaryFn} {flip : Bool} {d : DType}
  {axes : List Axis} (h : P.Broadcasts fn flip d axes x y n m)

include h

theorem operand_left : Operand.node x ∈ (P.left.node n).operands := by
  rw [h.binary]
  exact mem_inOrder.2 (.inl rfl)

theorem operand_right : Operand.node x ∈ (P.right.node n).operands := by
  rw [h.broadcast]
  exact List.mem_singleton_self _

theorem mem_of_input_left (hz : z ∈ (P.left.node n).inputs) : z ∈ P.nodes := by
  rw [h.binary] at hz
  rcases mem_nodes_inOrder.1 hz with rfl | rfl
  · exact h.mem.1
  · exact h.mem.2

theorem mem_of_input_right (hz : z ∈ (P.right.node n).inputs) : z ∈ P.nodes := by
  rw [h.broadcast] at hz
  exact List.mem_singleton.1 hz ▸ h.mem.1

end Pairing.Broadcasts

namespace Pairing.Compares

variable {P : Pairing} {w : Workspace} {roots l : List NodeRef} {n m x y : NodeRef}
  {fn : BinaryFn} {flip : Bool} {d : DType} {axes : List Axis} {engine : Engine} {r r' t' : Run}

section

variable (h : P.Compares w roots l n [n, m] m) (hP : P.Broadcasts fn flip d axes x y n m)
  (hprepared : P.Prepared engine roots n [n, m] m r r')

include h hP hprepared

/-- The function has both operands to look at. -/
theorem yields_simulate_binary {p : PaddingValue} {s : Run} :
    (RunM.simulate P.left engine n).Yields r p s ↔
      ∃ px py, (RunM.view P.left n (.node x)).Yields r (some px) s ∧
      r.read y (some n) = some py ∧
      engine.platform.binaryInOrder flip (.binary fn) px py = .ok p := by
  have hknows := (h.grows_left.next (List.mem_singleton_self n) fun _ => hP.mem_of_input_left).knows
    (h.grows_left.coherent hprepared.left)
  exact RunM.yields_simulate_inOrder hP.binary (hP.dtype.1.trans hP.dtype.2.symm) hP.axes_eq
    fun o s hview => RunM.content_read_of_view hknows hP.operand_left hview y (some n)

theorem knows_broadcast : r'.Knows P.right P.graph n :=
  (h.grows_right.next List.mem_cons_self fun _ => hP.mem_of_input_right).knows
    (h.grows_right.coherent hprepared.right)

/-- What the replication finds is of its element type. -/
theorem fits_broadcast {p : PaddingValue}
    (hview : (RunM.view P.right n (.node x)).Yields r' (some p) t') :
    p.content.Fits (P.right.node n).dtype := by
  have hdtype : (P.right.node n).dtype = (P.right.node x).dtype := by
    rw [P.node_eq x hP.mem.1, hP.dtype.1, hP.broadcast]
    rfl
  rw [hdtype]
  refine RunM.fits_of_view (h.knows_broadcast hP hprepared) hP.operand_right (fun q hq => ?_) hview
  exact h.grows_right.fits_read hprepared.right List.mem_cons_self (fun _ => hP.mem_of_input_right)
    (Operand.mem_filterMap_node?.2 hP.operand_right) hq

/-- The function reads the other operand alike, whatever the replication looked at before. -/
theorem content_read_last {o : Option PaddingValue}
    (hview : (RunM.view P.right n (.node x)).Yields r' o t') (hsize : n.index < t'.entries.size)
    (content : Content) :
    ((t'.store n content).read y (some m)).map PaddingValue.content =
      (r.read y (some n)).map PaddingValue.content := by
  have hglance : r'.read y (some m) = (r.read y (some n)).map (PaddingValue.retarget P.rename) :=
    h.glance_eq hprepared (by simp) fun z hz => Operand.node.inj hz ▸ hP.mem.2
  have hkept : (t'.store n content).read y (some m) = t'.read y (some m) := by
    rw [Run.read, Run.read, Run.entry_store hsize, if_neg fun hindex =>
      h.index_ne_left hP.mem.2 hindex.symm]
  rw [hkept, RunM.content_read_of_view (h.knows_broadcast hP hprepared) hP.operand_right hview,
    hglance, Option.map_map]
  rfl

end

/-- The function reads what the replication was found to hold. -/
theorem yields_simulate_last (hP : P.Broadcasts fn flip d axes x y n m) {q s : Run}
    {seen p : PaddingValue} (hread : q.read n (some m) = some seen) :
    (RunM.simulate P.right engine m).Yields q p s ↔ (∃ py, q.read y (some m) = some py ∧
      engine.platform.binaryInOrder flip (.binary fn) seen py = .ok p) ∧ s = q := by
  have hview : ∀ {o s}, (RunM.view P.right m (.node n)).Yields q o s ↔ o = some seen ∧ s = q := by
    intro o s
    rw [RunM.yields_view_of_axes_eq
      fun z hz => by rw [← Operand.node.inj hz, hP.broadcast, hP.last]; rfl, Run.glance, hread]
  have hdtype : (P.right.node n).dtype = (P.right.node y).dtype := by
    rw [P.node_eq y hP.mem.2, hP.dtype.2, hP.broadcast]
    rfl
  have haxes : (P.right.node y).axes = axes := by rw [P.node_eq y hP.mem.2, hP.axes_eq]
  rw [RunM.yields_simulate_inOrder hP.last hdtype haxes fun o s hs => by rw [(hview.1 hs).2]]
  constructor
  · rintro ⟨px, py, hx, hy, hp⟩
    obtain ⟨hseen, rfl⟩ := hview.1 hx
    rw [Option.some.inj hseen] at hp
    exact ⟨⟨py, hy, hp⟩, rfl⟩
  · rintro ⟨⟨py, hy, hp⟩, rfl⟩
    exact ⟨seen, py, hview.2 ⟨rfl, rfl⟩, hy, hp⟩

/-- Once the smaller operand was looked at, the two functions find the same. -/
theorem simulate_binary_last (h : P.Compares w roots l n [n, m] m)
    (hP : P.Broadcasts fn flip d axes x y n m) (hindex : n.index ≠ m.index)
    (hprepared : P.Prepared engine roots n [n, m] m r r') {t : Run} {px : PaddingValue}
    (hview : (RunM.view P.left n (.node x)).Yields r (some px) t)
    (hview' : (RunM.view P.right n (.node x)).Yields r' (some px) t')
    (hawaits : P.Awaits roots n [n, m] m [n, m] t t') :
    (∃ p s p' s', (RunM.simulate P.left engine n).Yields r p s ∧
        (RunM.simulate P.right engine m).Yields (t'.store n px.content) p' s' ∧
        p'.content = p.content ∧
        P.Awaits roots n [n, m] m [m] s s') ∨
      (RunM.simulate P.left engine n).Fails r ∧
      (RunM.simulate P.right engine m).Fails (t'.store n px.content) := by
  have hbinary : ∀ {p s}, (RunM.simulate P.left engine n).Yields r p s ↔ _ :=
    h.yields_simulate_binary hP hprepared
  have hlast : ∀ {p s}, (RunM.simulate P.right engine m).Yields (t'.store n px.content) p s ↔ _ :=
    yields_simulate_last hP
      (h.read_store hawaits List.mem_cons_self List.mem_cons_self px.content (some m))
  have hcontent := h.content_read_last hP hprepared hview'
    (hawaits.right n List.mem_cons_self).2 px.content
  by_cases hfound : ∃ p py, r.read y (some n) = some py ∧
      engine.platform.binaryInOrder flip (.binary fn) px py = .ok p
  · obtain ⟨p, py, hy, hp⟩ := hfound
    refine .inl ⟨p, t, p, _, hbinary.2 ⟨px, py, hview, hy, hp⟩, hlast.2 ⟨?_, rfl⟩, rfl,
      h.awaits_store hawaits List.mem_cons_self (by simpa using hindex) px.content⟩
    exact Platform.exists_binaryInOrder hcontent.symm rfl ⟨py, hy, hp⟩
  · refine .inr ⟨fun p s hs => hfound ?_, fun p s hs => hfound ?_⟩
    · obtain ⟨px', py, hview₀, hy, hp⟩ := hbinary.1 hs
      obtain rfl := Option.some.inj (hview.unique hview₀).1
      exact ⟨p, py, hy, hp⟩
    · exact ⟨p, Platform.exists_binaryInOrder hcontent rfl (hlast.1 hs).1⟩

/-- **Where the added nodes are simulated, the analyses agree.** -/
theorem leads_broadcast (h : P.Compares w roots l n [n, m] m)
    (hP : P.Broadcasts fn flip d axes x y n m) (hindex : n.index ≠ m.index) :
    RunM.Leads (P.Prepared engine roots n [n, m] m) (P.Ends n m) (engine.step P.left n)
      ([n, m].forM (engine.step P.right)) := by
  intro r r' hprepared
  have hbinary : ∀ {p s}, (RunM.simulate P.left engine n).Yields r p s ↔ _ :=
    h.yields_simulate_binary hP hprepared
  have hbroadcast : ∀ {p s}, (RunM.simulate P.right engine n).Yields r' p s ↔ _ :=
    RunM.yields_simulate_broadcastOf hP.broadcast
  have haxes : (P.right.node (P.rename n)).axes = (P.left.node n).axes := by
    rw [hP.rename, id, hP.broadcast, hP.binary]
    rfl
  have hlockstep : RunM.Lockstep (P.Follows (r, r')) _ _ _ :=
    P.lockstep_view haxes fun z hz => Operand.node.inj hz ▸ ⟨hP.mem.1, hP.counted⟩
  rw [hP.rename, PaddingValue.retarget_id] at hlockstep
  rcases hlockstep r r' hprepared.follows.rebase with
    ⟨o, t, _, t', ho, ho', rfl, hfollows⟩ | ⟨hfail, hfail'⟩
  · rw [Option.map_id] at ho'
    cases o with
    | none =>
      refine .inr (fails_pair (fun p u hp => ?_) fun p u hp => Option.some_ne_none p
        (ho'.unique (hbroadcast.1 hp)).1)
      obtain ⟨px, py, hview, -⟩ := hbinary.1 hp
      exact Option.some_ne_none px (ho.unique hview).1
    | some px =>
      have hawaits := h.awaits_of_follows (h.awaits_of_prepared hprepared) (by simp) hfollows
      have hstep := h.yields_step_right hawaits List.mem_cons_self List.mem_cons_self
        (hbroadcast.2 ho') (h.fits_broadcast hP hprepared ho')
      exact h.leads_pair hstep (h.simulate_binary_last hP hindex hprepared ho ho' hawaits)
  · refine .inr (fails_pair (fun p u hp => ?_) fun p u hp => hfail' _ _ (hbroadcast.1 hp))
    obtain ⟨px, py, hview, -⟩ := hbinary.1 hp
    exact hfail _ _ hview

/-- The function is only a target of the copies of lane 0 that it needs of the smaller operand. -/
theorem laneFix_of_mem_targets (h : P.Compares w roots l n [n, m] m)
    (hP : P.Broadcasts fn flip d axes x y n m) {a : Analysis}
    (ha : engine.analyze P.left (roots ++ [n]) = .ok a) {e : Action} (he : e ∈ a.actions)
    (hmem : e.tensor ∈ P.nodes) (hn : n ∈ e.targets) :
    e.tensor = x ∧ e.fill = .position (P.left.laneFixExpr n x) := by
  have hne : n ≠ e.tensor := fun heq => h.index_ne_left hmem (congrArg NodeRef.index heq.symm)
  have hpoint : (P.left.node n).op.isPointwise = true := by
    rw [hP.binary]
    rfl
  obtain ⟨hinput, hfix, hfill⟩ :=
    (Engine.ended_of_analyze h.wellFormed.2.1 ha).laneFix_of_mem_targets he hn hne hpoint
  have hother : P.left.laneFix n y = [] := by
    refine Workspace.laneFix_of_axes_eq ?_
    rw [hP.axes_eq, hP.binary]
    rfl
  rw [hP.binary] at hinput
  obtain htensor | htensor := mem_nodes_inOrder.1 hinput
  · exact ⟨htensor, htensor ▸ hfill⟩
  · exact absurd (htensor ▸ hother) hfix

end Pairing.Compares

/-! ## Analyses -/

namespace Workspace.BroadcastOperands

variable {w : Workspace} {g : Nat} {fn : BinaryFn} {x y : NodeRef} {roots : List NodeRef}
  (h : w.BroadcastOperands g fn x y)

include h

/-- The nodes of the two extensions, in either order of the operands. -/
theorem node_last (flip : Bool) :
    ((w.withBroadcast g x y).withBinary g fn flip (w.nextRef g) y).node
      ((w.withBroadcast g x y).nextRef g) =
        .binaryOf fn (inOrder flip (.node (w.nextRef g)) (.node y)) (w.node y).dtype
          (w.node y).axes := by
  rw [h.broadcast.node_binary flip, h.node_broadcast_right]

theorem node_first (flip : Bool) :
    ((w.withBroadcast g x y).withBinary g fn flip (w.nextRef g) y).node (w.nextRef g) =
      .broadcastOf x (w.node y).dtype (w.node y).axes :=
  (node_push (has_nextRef h.lt_size)).trans h.node_broadcast

/-- In the second extension, the replication is the only new node that reads the smaller
operand. -/
theorem length_readers_new (flip : Bool) (hne : x ≠ y) :
    ([w.nextRef g, (w.withBroadcast g x y).nextRef g].filter fun c =>
      x ∈ (((w.withBroadcast g x y).withBinary g fn flip (w.nextRef g) y).node c).inputs).length =
        if x ∈ ((w.withBinary g fn flip x y).node (w.nextRef g)).inputs then 1 else 0 := by
  have hfirst : x ∈ (((w.withBroadcast g x y).withBinary g fn flip (w.nextRef g) y).node
      (w.nextRef g)).inputs := by
    rw [h.node_first]
    exact List.mem_singleton_self x
  have hlast : x ∉ (((w.withBroadcast g x y).withBinary g fn flip (w.nextRef g) y).node
      ((w.withBroadcast g x y).nextRef g)).inputs := by
    rw [h.node_last]
    intro hx
    rcases mem_nodes_inOrder.1 hx with heq | heq
    · exact not_has_nextRef (heq ▸ h.has.1)
    · exact hne heq
  have hbinary : x ∈ ((w.withBinary g fn flip x y).node (w.nextRef g)).inputs := by
    rw [h.node_binary]
    exact mem_nodes_inOrder.2 (.inl rfl)
  rw [if_pos hbinary, List.filter_cons_of_pos (by simpa using hfirst),
    List.filter_cons_of_neg (by simpa using hlast), List.filter_nil, List.length_singleton]

/-- None of the added nodes can fault. -/
theorem of?_eq_none (hfn : fn ≠ .div) (flip : Bool) (z : NodeRef) :
    FaultRule.of? ((w.withBinary g fn flip x y).node (w.nextRef g)) z = none ∧
      ∀ c ∈ [w.nextRef g, (w.withBroadcast g x y).nextRef g],
        FaultRule.of? (((w.withBroadcast g x y).withBinary g fn flip (w.nextRef g) y).node c) z =
          none := by
  constructor
  · rw [h.node_binary]
    exact FaultRule.of?_binaryOf hfn
  · intro c hc
    rcases List.mem_pair.1 hc with rfl | rfl
    · rw [h.node_first]
      rfl
    · rw [h.node_last]
      exact FaultRule.of?_binaryOf hfn

/-- **The two extensions are paired.** -/
theorem exists_compares (hw : w.Built) (hfn : fn ≠ .div) (flip : Bool)
    (hroots : ∀ z ∈ roots, z.graph = g ∧ w.Has z) :
    ∃ P : Pairing, P.left = w.withBinary g fn flip x y ∧
      P.right = (w.withBroadcast g x y).withBinary g fn flip (w.nextRef g) y ∧
      P.Broadcasts fn flip (w.node y).dtype (w.node y).axes x y (w.nextRef g)
        ((w.withBroadcast g x y).nextRef g) ∧
      P.Compares w roots ((inOrder flip (.node x) (.node y)).filterMap Operand.node?) (w.nextRef g)
        [w.nextRef g, (w.withBroadcast g x y).nextRef g] ((w.withBroadcast g x y).nextRef g) := by
  obtain ⟨nodes, hnodes⟩ : ∃ nodes,
      w.PartOf g (roots ++ (inOrder flip (.node x) (.node y)).filterMap Operand.node?) nodes :=
    exists_partOf hw.wellFormed fun z hz => (List.mem_append.1 hz).elim (hroots z) h.mem_inputs
  have hmem : x ∈ nodes ∧ y ∈ nodes := by
    constructor
    · exact (hnodes.mem_iff x).2 (.root (List.mem_append_right _ (mem_nodes_inOrder.2 (.inl rfl))))
    · exact (hnodes.mem_iff y).2 (.root (List.mem_append_right _ (mem_nodes_inOrder.2 (.inr rfl))))
  have hkept : (w.withBinary g fn flip x y).node x = w.node x ∧
      (w.withBinary g fn flip x y).node y = w.node y :=
    ⟨node_push h.has.1, node_push h.has.2⟩
  -- who else reads the smaller operand does not matter unless copies of its lane 0 are needed
  refine ⟨.ofAdds (h.adds_binary flip) (h.adds_broadcast flip) hnodes id Function.injective_id
    (fun _ _ => rfl)
    (fun z => (∃ c ∈ nodes, z ∈ (w.node c).inputs) ∨ z ∈ roots ∨ z = x ∧ x ≠ y)
    fun c hc z hz => .inl ⟨c, hc, hz⟩, rfl, rfl, ?_, ?_⟩
  · constructor
    case rename => rfl
    case binary => exact h.node_binary flip
    case broadcast => exact h.node_first flip
    case last => exact h.node_last flip
    case mem => exact hmem
    case dtype => exact ⟨(congrArg Node.dtype hkept.1).trans h.dtype, congrArg Node.dtype hkept.2⟩
    case axes_eq => exact congrArg Node.axes hkept.2
    case counted =>
      by_cases hxy : x = y
      · refine .inr (laneFix_of_axes_eq ?_)
        show ((w.withBinary g fn flip x y).node x).axes =
          ((w.withBinary g fn flip x y).node (w.nextRef g)).axes
        rw [h.node_binary, hkept.1, hxy]
        rfl
      · exact .inl (.inr (.inr ⟨rfl, hxy⟩))
  · refine Pairing.compares_ofAdds hw.wellFormed (h.built_binary hw flip).wellFormed
      (h.broadcast.built_binary (h.built_broadcast hw) flip).wellFormed
      (fun z hz => ⟨(hroots z hz).1, (hroots z hz).2, .inr (.inl hz)⟩) (h.of?_eq_none hfn flip)
      ?_ ?_ ?_
    · rintro z - (hread | hroot | ⟨rfl, hne⟩)
      · exact .inl (.inl hread)
      · exact .inl (.inr hroot)
      · exact .inr (h.length_readers_new flip hne)
    · rw [h.node_last, h.node_binary]
      rfl
    · rw [h.node_last, h.node_binary]
      rfl

end Workspace.BroadcastOperands

/-- A single lane with its exponential, and a vector. -/
def Workspace.scaledVector : Workspace :=
  (Workspace.empty.addGraph "scaled").calls
    [.placeholder 0 "x" .float32 [⟨8, 1⟩], .placeholder 0 "y" .float32 [⟨16, 15⟩],
      .unary (.unary .exp) ⟨0, 0⟩]

theorem Workspace.built_scaledVector : scaledVector.Built :=
  (Built.addGraph "scaled" .empty).calls (by decide)

/-- The vector is multiplied by the single lane. -/
def Workspace.scaledProduct :
    Workspace := scaledVector.calls [.binary (.binary .mul) (.node ⟨0, 1⟩) (.node ⟨0, 0⟩)]

namespace Engine

variable {engine : Engine} {w : Workspace} {g : Nat} {roots : List NodeRef} {fn : BinaryFn}
  {x y : NodeRef}

/-- **Implicit and explicit replication are analysed alike.**  Either both graphs can be analysed or
none of them.  The analyses find the same in all old nodes and in the new outputs.  The actions are
the same, with the function of the replicated operand in the place of the other one, except that the
replication demands the copies of lane 0. -/
theorem analyze_binary_iff_broadcast (hw : w.Built) (hroots : ∀ z ∈ roots, z.graph = g ∧ w.Has z)
    (hoperands : w.BroadcastOperands g fn x y) (hfn : fn ∈ [.add, .sub, .mul, .max, .min])
    (flip : Bool) :
    ∃ n w₁ b w₂ m w₃,
      (Build.binaryInOrder flip (.binary fn) (.node x) (.node y)).on w = (.ok n, w₁) ∧
      (Build.broadcast x (w.node y).axes).on w = (.ok b, w₂) ∧
      (Build.binaryInOrder flip (.binary fn) (.node b) (.node y)).on w₂ = (.ok m, w₃) ∧
      ((∃ a, engine.analyze w₁ (roots ++ [n]) = .ok a) ↔
        ∃ c, engine.analyze w₃ (roots ++ [m]) = .ok c) ∧
      ∀ a c, engine.analyze w₁ (roots ++ [n]) = .ok a → engine.analyze w₃ (roots ++ [m]) = .ok c →
        a.SameContents w n m c ∧
        (∀ z, w.Has z → c.settings z =
          (a.settings z).map (Setting.retarget (Function.update id n b))) ∧
        c.actions = a.actions.map fun e => e.redirect (Function.update id n
          (if e.tensor = x ∧ e.fill = .position (w₁.laneFixExpr n x) then b else m)) := by
  have hdiv : fn ≠ .div := by
    rintro rfl
    simp at hfn
  obtain ⟨P, hleft, hright, hbroadcasts, hcompares⟩ := hoperands.exists_compares hw hdiv flip hroots
  refine ⟨_, _, _, _, _, _, hoperands.binary_on hw.wellFormed flip,
    hoperands.broadcast_on hw.wellFormed, hoperands.broadcast.binary_on
      (hoperands.built_broadcast hw).wellFormed flip, ?_⟩
  have hindex : (w.nextRef g).index ≠ ((w.withBroadcast g x y).nextRef g).index :=
    Workspace.index_nextRef_ne hoperands.lt_size
  obtain ⟨hiff, hagree⟩ := hcompares.analyze_iff (hcompares.leads_broadcast hbroadcasts hindex)
  have hsame : Function.update id (w.nextRef g) (w.nextRef g) = id :=
    Function.update_eq_self (w.nextRef g) id
  rw [← hleft, ← hright]
  refine ⟨hiff, fun a c ha hc =>
    ⟨hcompares.sameContents ha hc (hagree a c ha hc), fun z hz => ?_, ?_⟩⟩
  · rw [hcompares.settings_eq ha hc (hagree a c ha hc) hz, hbroadcasts.rename, hsame]
  · refine (hagree a c ha hc).actions_eq (fun v => ?_) fun e he hmem => ?_
    · rw [if_neg fun hfix => Fill.noConfusion hfix.2, Action.redirect,
        Function.update_self, List.map_nil]
    · rw [hbroadcasts.rename]
      split
      · rw [hsame]
        rfl
      · rename_i hother
        have htensor : e.tensor ≠ w.nextRef g := fun heq =>
          Workspace.not_has_nextRef (heq ▸ hcompares.nodes.has _ hmem)
        have htargets : ∀ z ∈ e.targets, z ≠ w.nextRef g := by
          rintro z hz rfl
          exact hother (hcompares.laneFix_of_mem_targets hbroadcasts ha he hmem hz)
        rw [Action.redirect, Action.retarget, Function.update_of_ne htensor]
        exact congrArg (Action.mk _ _)
          (List.map_congr_left fun z hz => Function.update_of_ne (htargets z hz) ..)

/-- A vector is multiplied by a single lane, of which the exponential is taken as well.  Lane 0 of
the factor is copied for the product only, or for the replication. -/
theorem analyze_binary_scaledVector :
    Workspace.scaledVector.BroadcastOperands 0 .mul ⟨0, 0⟩ ⟨0, 1⟩ ∧
    ∃ n w₁ b w₂ m w₃ a c,
      (Build.binaryInOrder true (.binary .mul) (.node ⟨0, 0⟩) (.node ⟨0, 1⟩)).on .scaledVector =
        (.ok n, w₁) ∧
      (Build.broadcast ⟨0, 0⟩ (Workspace.scaledVector.node ⟨0, 1⟩).axes).on .scaledVector =
        (.ok b, w₂) ∧
      (Build.binaryInOrder true (.binary .mul) (.node b) (.node ⟨0, 1⟩)).on w₂ = (.ok m, w₃) ∧
      default.analyze w₁ ([⟨0, 2⟩] ++ [n]) = .ok a ∧ default.analyze w₃ ([⟨0, 2⟩] ++ [m]) = .ok c ∧
      a.actions = [⟨⟨0, 0⟩, .position (w₁.laneFixExpr n ⟨0, 0⟩), [n]⟩,
        ⟨⟨0, 2⟩, .constant ⟨.float32, .zero⟩, []⟩, ⟨n, .constant ⟨.float32, .zero⟩, []⟩] ∧
      a.SameContents .scaledVector n m c ∧
      (∀ z, Workspace.scaledVector.Has z →
        c.settings z = (a.settings z).map (Setting.retarget (Function.update id n b))) ∧
      c.actions = a.actions.map fun e => e.redirect (Function.update id n
        (if e.tensor = ⟨0, 0⟩ ∧ e.fill = .position (w₁.laneFixExpr n ⟨0, 0⟩) then b else m)) := by
  have hoperands : Workspace.scaledVector.BroadcastOperands 0 .mul ⟨0, 0⟩ ⟨0, 1⟩ :=
    ⟨by decide, by decide, by decide, by decide⟩
  obtain ⟨n, w₁, b, w₂, m, w₃, hn, hb, hm, hiff, hall⟩ :=
    @analyze_binary_iff_broadcast default _ _ _ _ _ _
    Workspace.built_scaledVector (show ∀ z ∈ [(⟨0, 2⟩ : NodeRef)], _ by decide) hoperands
    (by decide) true
  obtain rfl : n = ⟨0, 3⟩ := Except.ok.inj (congrArg Prod.fst hn).symm
  obtain rfl : w₁ = .scaledProduct := (congrArg Prod.snd hn).symm
  obtain ⟨a, ha, hactions⟩ : ∃ a, default.analyze .scaledProduct ([⟨0, 2⟩] ++ [⟨0, 3⟩]) = .ok a ∧
      a.actions =
        [⟨⟨0, 0⟩, .position (Workspace.scaledProduct.laneFixExpr ⟨0, 3⟩ ⟨0, 0⟩), [⟨0, 3⟩]⟩,
          ⟨⟨0, 2⟩, .constant ⟨.float32, .zero⟩, []⟩, ⟨⟨0, 3⟩, .constant ⟨.float32, .zero⟩, []⟩] :=
    (Workspace.built_scaledVector.calls (by decide)).exists_analyze 0
      [⟨0, 0⟩, ⟨0, 1⟩, ⟨0, 2⟩, ⟨0, 3⟩] (by decide) (by decide +kernel)
  obtain ⟨c, hc⟩ := hiff.1 ⟨a, ha⟩
  exact ⟨hoperands, _, _, b, w₂, m, w₃, a, c, hn, hb, hm, ha, hc, hactions, hall a c ha hc⟩

end Engine
end LanePadding
