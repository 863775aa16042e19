import LanePadding.Proofs.CommonShape
import LanePadding.Proofs.Lanes

/-!
# What all graphs made with the builders have in common

Nodes are numbered as they are made.  A call that succeeds answers the number of the node that it
adds behind all others, and no later call moves a node, so a number is also the position where the
node is found.  Operands are made before their consumers, and this keeps graphs free of cycles.

The shapes of a consumer and of what it reads go together axis by axis.  The analysis relies on one
consequence of this: where a padded axis of a consumer is not filled by replication, the axis of the
operand is padded as well, so that padding lanes are computed from padding lanes.

## What is here

* `Workspace.Appends` — a node is added behind all others of its graph.
* `BuilderCall.makes?` — the operator and the operands of the node that a call adds.
* `BuilderCall.ends_of_add` — most builders check their arguments and then add a node.
* `BuilderCall.ends_appends` — **a call adds its node at the end**, or leaves all nodes alone.
* `Workspace.Built.combining` — **nodes that combine operands have the common shape of these.**
* `Node.Reads.isPadded_of_out` — padding that is not replicated meets padding.
* `Workspace.Consistent` — the invariant of one node; `Workspace.consistent_of_built` has it for all
  nodes, after any sequence of calls.
-/

set_option autoImplicit false

namespace LanePadding

/-! ## Where a call puts its node -/

/-- The graph that a leaf is added to. -/
def BuilderCall.graph? : BuilderCall → Option Nat
  | .placeholder g _ _ _ | .placeholderWithPadding g _ _ _ _ | .constant g _ _ => some g
  | _ => none

/-- Whether the builder checks all its arguments before it adds a node. -/
def BuilderCall.checksFirst : BuilderCall → Bool
  | .placeholder _ _ _ _ | .placeholderWithPadding _ _ _ _ _ | .withName _ _ => false
  | _ => true

/-- The operator and the operands of the node that the call adds. -/
def BuilderCall.makes? : BuilderCall → Option (OpKind × List Operand)
  | .placeholder _ _ _ _ | .placeholderWithPadding _ _ _ _ _ => some (.placeholder, [])
  | .constant _ _ _ => some (.constant, [])
  | .unary op x | .reduce op x _ _ => some (op, [.node x])
  | .cast x _ => some (.cast, [.node x])
  | .broadcast x _ => some (.broadcast, [.node x])
  | .binary op lhs rhs => some (op, [lhs, rhs])
  | .compare lhs rhs _ => some (.compare, [lhs, rhs])
  | .select cond t f => some (.select, [.node cond, t, f])
  | .cmpSel lhs rhs _ t f => some (.cmpSel, [lhs, rhs, t, f])
  | .withName _ _ => none

theorem BuilderCall.mentions_of_makes? {b : BuilderCall} {kind : OpKind} {operands : List Operand}
    (h : b.makes? = some (kind, operands)) : operands.filterMap Operand.node? = b.mentions := by
  cases b with
  | withName _ _ => exact absurd h (by simp [makes?])
  | _ =>
    obtain ⟨-, rfl⟩ := Prod.mk.inj (Option.some.inj h)
    rfl

/-- The call refers to nodes and graphs that are there. -/
def BuilderCall.RefersTo (w : Workspace) (b : BuilderCall) : Prop :=
  (∀ x ∈ b.mentions, w.Has x) ∧ ∀ g ∈ b.graph?, g < w.graphs.size

instance (w : Workspace) (b : BuilderCall) : Decidable (b.RefersTo w) :=
  inferInstanceAs (Decidable (_ ∧ ∀ g ∈ b.graph?, _))

namespace Workspace

/-- The node `r` is added to its graph behind all others, and nothing else changes. -/
structure Appends (w : Workspace) (r : NodeRef) (w' : Workspace) : Prop where
  index : r.index = (w.graph r.graph).nodes.size
  nodes : (w'.graph r.graph).nodes = (w.graph r.graph).nodes.push (w'.node r)
  others : ∀ g, g ≠ r.graph → w'.graph g = w.graph g

variable {w w' : Workspace} {r : NodeRef}

theorem node_eq_missing (h : ¬w.Has r) : w.node r = .missing := by
  rw [node, Graph.node, Array.getD_eq_getD_getElem?, Array.getElem?_eq_none (Nat.le_of_not_lt h)]
  rfl

theorem lt_size_of_has (h : w.Has r) : r.graph < w.graphs.size := by
  by_contra hnot
  have hnone : w.graphs[r.graph]? = none := Array.getElem?_eq_none (Nat.le_of_not_lt hnot)
  simp [Has, graph, Array.getD_eq_getD_getElem?, hnone,
    show (default : Graph).nodes = #[] from rfl] at h

/-- The node that is added to a graph next. -/
def nextRef (w : Workspace) (g : Nat) : NodeRef := ⟨g, (w.graph g).nodes.size⟩

theorem node_push_self {g : Nat} {n : Node} (hg : g < w.graphs.size) :
    (w.push g n).node (w.nextRef g) = n := by
  simp [nextRef, node, graph_push, hg, Graph.node]

theorem appends_push {g : Nat} (hg : g < w.graphs.size) (n : Node) :
    w.Appends (w.nextRef g) (w.push g n) where
  index := rfl
  nodes := by
    rw [node_push_self hg, nextRef, graph_push, if_pos ⟨rfl, hg⟩]
  others h hne := by
    rw [graph_push, if_neg fun hand => hne hand.1.symm]

theorem Appends.has (h : w.Appends r w') : w'.Has r := by
  rw [Has, h.nodes, Array.size_push, h.index]
  exact Nat.lt_succ_self _

/-- The node that was added may be changed in place. -/
theorem Appends.modifyNode (h : w.Appends r w') (f : Node → Node) :
    w.Appends r (w'.modifyNode r f) where
  index := h.index
  nodes := by
    rw [node_modifyNode h.has, if_pos rfl, graph_modifyNode, if_pos rfl, h.index]
    simp only [h.nodes]
    refine Array.ext (by simp) fun i hi hi' => ?_
    rw [Array.size_push] at hi'
    by_cases hlast : (w.graph r.graph).nodes.size = i
    · subst hlast
      simp [Array.getElem_modify]
    · have hlt : i < (w.graph r.graph).nodes.size := by omega
      simp [Array.getElem_modify, hlast, Array.getElem_push, hlt]
  others g hne := by
    rw [graph_modifyNode, if_neg (Ne.symm hne), h.others g hne]

end Workspace

section Calls

variable {w : Workspace}

theorem Build.ends_add_appends {g? : Option Nat} (hg : ∀ g ∈ g?, g < w.graphs.size)
    {op : Op} {d : DType} {axes : List Axis} {operands : List Operand}
    (hhas : ∀ x ∈ operands.filterMap Operand.node?, w.Has x) :
    (add g? op d axes operands).Ends w
      (fun r w' => w.Appends r w' ∧ w'.node r = ⟨"", op, operands, d, axes⟩) (· = w) := by
  simp only [add, ends_bind, ends_get, ends_lift]
  split
  · rename_i o ho
    obtain ⟨hoperands, hgiven⟩ := Workspace.forall_graph_eq_of_owner ho
    have ho : o < w.graphs.size := by
      cases g? with
      | some g =>
        obtain rfl := hgiven g rfl
        exact hg g rfl
      | none =>
        cases hxs : operands.filterMap Operand.node? with
        | nil => simp [hxs, Workspace.owner] at ho
        | cons x xs =>
          have hx : x ∈ operands.filterMap Operand.node? := by simp [hxs]
          exact hoperands x hx ▸ Workspace.lt_size_of_has (hhas x hx)
    split
    · rfl
    · exact ⟨Workspace.appends_push ho _, Workspace.node_push_self ho⟩
  · trivial

section OfAdd

variable {Q : NodeRef → Workspace → Prop} {E : Workspace → Prop} {lhs rhs t f : Operand}
  {mode : CompareMode}

/-- A node that combines operands gets their common shape. -/
theorem Build.ends_broadcastShape_of_add {op : Op} {d : DType} {operands : List Operand} (hE : E w)
    (hadd : ∀ axes, Node.Combined w ⟨"", op, operands, d, axes⟩ →
      (add none op d axes operands).Ends w Q E) :
    (do
      let axes ← w.broadcastShape op.kind operands
      add none op d axes operands : Build NodeRef).Ends w Q E := by
  simp only [ends_bind, ends_lift]
  split
  · rename_i axes hshape
    exact hadd axes fun _ => hshape
  · exact hE

theorem Build.ends_unary_of_add {op : OpKind} {x : NodeRef} (hE : E w)
    (hadd : ∀ fn d axes, op = .unary fn → Node.Combined w ⟨"", .unary fn, [.node x], d, axes⟩ →
      (add none (.unary fn) d axes [.node x]).Ends w Q E) : (unary op x).Ends w Q E := by
  cases op with
  | unary fn =>
    simp only [unary, ends_bind, ends_get]
    exact hadd fn _ _ rfl fun _ => Workspace.broadcastShape_singleton x
  | _ => exact hE

theorem Build.ends_binary_of_add {op : OpKind} (hE : E w)
    (hadd : ∀ fn d axes, op = .binary fn → Node.Combined w ⟨"", .binary fn, [lhs, rhs], d, axes⟩ →
      (add none (.binary fn) d axes [lhs, rhs]).Ends w Q E) : (binary op lhs rhs).Ends w Q E := by
  cases op with
  | binary fn =>
    rw [binary, ends_bind, ends_get, ends_bind, ends_lift]
    split
    · exact ends_broadcastShape_of_add hE fun axes => hadd fn _ axes rfl
    · exact hE
  | _ => exact hE

theorem Build.ends_broadcast_of_add {x : NodeRef} {axes : List Axis} (hE : E w)
    (hadd : ∀ d, (add none .broadcast d axes [.node x]).Ends w Q E) :
    (broadcast x axes).Ends w Q E := by
  simp only [broadcast, ends_bind, ends_get]
  split
  · exact hE
  · split
    · exact hE
    · exact hadd _

theorem Build.ends_reduce_of_add {op : OpKind} {x : NodeRef} {keep : Bool} {axes : List Int}
    (hE : E w)
    (hadd : ∀ fn reduced d left, op = .reduce fn →
      (add none (.reduce fn reduced keep) d left [.node x]).Ends w Q E) :
    (reduce op x keep axes).Ends w Q E := by
  cases op with
  | reduce fn =>
    simp only [reduce, ends_bind, ends_get]
    split
    · exact hE
    · exact hadd fn _ _ _ rfl
  | _ => exact hE

theorem Build.ends_compare_of_add (hE : E w)
    (hadd : ∀ d axes, Node.Combined w ⟨"", .compare mode, [lhs, rhs], d, axes⟩ →
      (add none (.compare mode) d axes [lhs, rhs]).Ends w Q E) :
    (compare lhs rhs mode).Ends w Q E := by
  rw [compare]
  split
  · exact hE
  · rw [ends_bind, ends_get, ends_bind, ends_lift]
    split
    · exact ends_broadcastShape_of_add hE fun axes => hadd .bool axes
    · exact hE

theorem Build.ends_select_of_add {cond : NodeRef} (hE : E w)
    (hadd : ∀ d axes, Node.Combined w ⟨"", .select, [.node cond, t, f], d, axes⟩ →
      (add none .select d axes [.node cond, t, f]).Ends w Q E) :
    (select cond t f).Ends w Q E := by
  rw [select, ends_bind, ends_get]
  dsimp only
  split
  · exact hE
  · rw [ends_bind, ends_lift]
    split
    · exact ends_broadcastShape_of_add hE fun axes => hadd _ axes
    · exact hE

theorem Build.ends_cmpSel_of_add (hE : E w)
    (hadd : ∀ d axes, Node.Combined w ⟨"", .cmpSel mode, [lhs, rhs, t, f], d, axes⟩ →
      (add none (.cmpSel mode) d axes [lhs, rhs, t, f]).Ends w Q E) :
    (cmpSel lhs rhs mode t f).Ends w Q E := by
  rw [cmpSel]
  split
  · exact hE
  · rw [ends_bind, ends_get, ends_bind, ends_lift]
    split
    · rw [ends_bind, ends_lift]
      split
      · exact ends_broadcastShape_of_add hE fun axes => hadd _ axes
      · exact hE
    · exact hE

/-- Where the arguments are checked first, what adding a node guarantees is guaranteed by the call.
The node is no placeholder.  Operands that are combined have a common shape, and this is the shape
of the node. -/
theorem BuilderCall.ends_of_add {b : BuilderCall} (hb : b.checksFirst = true) (hE : E w)
    (hadd : ∀ op d axes operands, b.makes? = some (op.kind, operands) → op.kind ≠ .placeholder →
      Node.Combined w ⟨"", op, operands, d, axes⟩ →
      (Build.add b.graph? op d axes operands).Ends w Q E) : b.build.Ends w Q E := by
  cases b with
  | placeholder _ _ _ _ | placeholderWithPadding _ _ _ _ _ | withName _ _ =>
    exact absurd hb Bool.false_ne_true
  | constant g v axes =>
    refine (Build.ends_bind ..).2 (Build.ends_checkDType (fun _ => ?_) hE)
    exact hadd _ _ _ [] rfl OpKind.noConfusion (Node.combined_of_not rfl)
  | unary op x =>
    refine Build.ends_unary_of_add hE fun fn d axes hop hn => ?_
    exact hadd _ d axes _ (by rw [hop]; rfl) OpKind.noConfusion hn
  | cast x d =>
    simp only [build, Build.cast, Build.ends_bind, Build.ends_get]
    refine Build.ends_checkDType (fun _ => ?_) hE
    exact hadd _ d _ _ rfl OpKind.noConfusion fun _ => Workspace.broadcastShape_singleton x
  | binary op lhs rhs =>
    refine Build.ends_binary_of_add hE fun fn d axes hop hn => ?_
    exact hadd _ d axes _ (by rw [hop]; rfl) OpKind.noConfusion hn
  | broadcast x axes =>
    refine Build.ends_broadcast_of_add hE fun d => ?_
    exact hadd _ d axes _ rfl OpKind.noConfusion (Node.combined_of_not rfl)
  | reduce op x keep axes =>
    refine Build.ends_reduce_of_add hE fun fn reduced d left hop => ?_
    exact hadd _ d left _ (by rw [hop]; rfl) OpKind.noConfusion (Node.combined_of_not rfl)
  | compare lhs rhs mode =>
    refine Build.ends_compare_of_add hE fun d axes hn => ?_
    exact hadd _ d axes _ rfl OpKind.noConfusion hn
  | select cond t f =>
    refine Build.ends_select_of_add hE fun d axes hn => ?_
    exact hadd _ d axes _ rfl OpKind.noConfusion hn
  | cmpSel lhs rhs mode t f =>
    refine Build.ends_cmpSel_of_add hE fun d axes hn => ?_
    exact hadd _ d axes _ rfl OpKind.noConfusion hn

end OfAdd

theorem Build.ends_placeholder_appends {g : Nat} (hg : g < w.graphs.size)
    (name : String) (d : DType) (axes : List Axis) :
    (placeholder g name d axes).Ends w
      (fun r w' => w.Appends r w' ∧ w'.node r = ⟨name, .placeholder none, [], d, axes⟩)
      (· = w) := by
  simp only [placeholder, withName, ends_bind]
  refine ends_checkDType (fun _ => ?_) rfl
  refine (ends_add_appends (by simpa using hg) (by simp)).mono (fun r w' h => ?_) fun _ h => h
  simp only [ends_modify, ends_pure]
  refine ⟨h.1.modifyNode _, ?_⟩
  rw [Workspace.withName, Workspace.node_modifyNode h.1.has, if_pos rfl, h.2]

/-- A placeholder is added before its padding value is checked, so it stays when the check fails. -/
theorem Build.ends_placeholderWithPadding_appends {g : Nat} (hg : g < w.graphs.size) (name : String)
    (padding : Option PaddingValue) (d : DType) (axes : List Axis) :
    (placeholderWithPadding g name padding d axes).Ends w (fun r w' => w.Appends r w')
      fun w' => w' = w ∨ ∃ r, w.Appends r w' ∧
      w'.node r = ⟨name, .placeholder none, [], d, axes⟩ := by
  refine ends_placeholderWithPadding_of
    ((ends_placeholder_appends hg name d axes).mono (fun r w' h => ?_) fun _ h => .inl h)
  exact ⟨fun _ => .inr ⟨r, h⟩, fun p _ _ => h.1.modifyNode _⟩

/-- **A call answers the position of the node that it adds**, unless it only names one.  If it
fails, it adds at most one node. -/
theorem BuilderCall.ends_appends {b : BuilderCall} (hb : b.RefersTo w) :
    b.build.Ends w
      (fun r w' => w.Appends r w' ∨ ∃ label, b = .withName r label ∧ w' = w.withName r label)
      fun w' => w' = w ∨ ∃ r, w.Appends r w' := by
  have hchecked (hfirst : b.checksFirst = true) : b.build.Ends w
      (fun r w' => w.Appends r w') (· = w) :=
    ends_of_add hfirst rfl fun _ _ _ _ hmakes _ _ =>
      (Build.ends_add_appends hb.2 (mentions_of_makes? hmakes ▸ hb.1)).mono
        (fun _ _ h => h.1) fun _ h => h
  cases b with
  | placeholder g name d axes =>
    exact (Build.ends_placeholder_appends (hb.2 g rfl) name d axes).mono (fun _ _ h => .inl h.1)
      fun _ h => .inl h
  | placeholderWithPadding g name p d axes =>
    exact (Build.ends_placeholderWithPadding_appends (hb.2 g rfl) name p d axes).mono
      (fun _ _ h => .inl h) fun _ h => h.imp_right fun hleft => hleft.imp fun _ hr => hr.1
  | withName x label => exact .inr ⟨label, rfl, rfl⟩
  | _ => exact (hchecked rfl).mono (fun _ _ h => .inl h) fun _ h => .inl h

end Calls

/-! ## Shapes -/

theorem Node.Combined.congr {w w' : Workspace} {n : Node} (h : n.Combined w)
    (haxes : ∀ x ∈ n.inputs, (w'.node x).axes = (w.node x).axes) : n.Combined w' :=
  fun hop => Workspace.broadcastShape_of_axes haxes (h hop)

namespace Workspace

/-- All nodes that combine operands have the common shape of these. -/
def Combining (w : Workspace) : Prop := ∀ r, w.Has r → (w.node r).Combined w

namespace Combining

variable {w : Workspace}

theorem push (h : w.Combining) (hw : w.WellFormed) {g : Nat} {n : Node} (hn : n.Combined w)
    (hhas : ∀ x ∈ n.inputs, w.Has x) : (w.push g n).Combining := by
  have hkeep : ∀ m : Node, m.Combined w → (∀ x ∈ m.inputs, w.Has x) → m.Combined (w.push g n) :=
    fun m hm hinputs => hm.congr fun x hx => by rw [node_push (hinputs x hx)]
  intro r hr
  rcases has_push hr with hold | ⟨-, hnode⟩
  · rw [node_push hold]
    exact hkeep _ (h r hold) fun x hx => (hw.has_input hold hx).2
  · rw [hnode]
    exact hkeep n hn hhas

theorem modifyNode (h : w.Combining) {r : NodeRef} {f : Node → Node}
    (haxes : ∀ n, (f n).axes = n.axes) (hf : w.Has r → (f (w.node r)).Combined w) :
    (w.modifyNode r f).Combining := by
  have hkept : ∀ x, ((w.modifyNode r f).node x).axes = (w.node x).axes := by
    intro x
    by_cases hx : w.Has x
    · rw [node_modifyNode hx]
      split
      · exact haxes _
      · rfl
    · rw [node_eq_missing hx, node_eq_missing (mt has_modifyNode.1 hx)]
  intro x hx
  rw [has_modifyNode] at hx
  rw [node_modifyNode hx]
  split
  · rename_i hrx
    subst hrx
    exact (hf hx).congr fun y _ => hkept y
  · exact (h x hx).congr fun y _ => hkept y

theorem withName (h : w.Combining) (r : NodeRef) (label : String) :
    (w.withName r label).Combining :=
  h.modifyNode (fun _ => rfl) fun hr => h r hr

end Combining
end Workspace

section Combined

variable {w : Workspace}

theorem Build.ends_add_combining (hw : w.WellFormed) (h : w.Combining) {g? : Option Nat}
    {op : Op} {d : DType} {axes : List Axis} {operands : List Operand}
    (hn : Node.Combined w ⟨"", op, operands, d, axes⟩)
    (hhas : ∀ x ∈ operands.filterMap Operand.node?, w.Has x) :
    (add g? op d axes operands).Ends w (fun _ w' => w'.Combining) Workspace.Combining := by
  simp only [add, ends_bind, ends_get, ends_lift]
  split
  · split
    · exact h
    · exact h.push hw hn hhas
  · exact h

theorem Build.ends_placeholder_combining (hw : w.WellFormed) (h : w.Combining) (g : Nat)
    (name : String) (d : DType) (axes : List Axis) :
    (placeholder g name d axes).Ends w (fun _ w' => w'.Combining) Workspace.Combining := by
  simp only [placeholder, Build.withName, ends_bind]
  refine ends_checkDType (fun _ => ?_) h
  refine (ends_add_combining hw h (Node.combined_of_not rfl) (by simp)).mono
    (fun r w' h => ?_) fun _ h => h
  simp only [ends_modify, ends_pure]
  exact h.withName r name

theorem Build.ends_placeholderWithPadding_combining (hw : w.WellFormed) (h : w.Combining) (g : Nat)
    (name : String) (padding : Option PaddingValue) (d : DType) (axes : List Axis) :
    (placeholderWithPadding g name padding d axes).Ends w
      (fun _ w' => w'.Combining) Workspace.Combining := by
  refine ends_placeholderWithPadding_of
    ((ends_placeholder_combining hw h g name d axes).mono (fun r w' h => ?_) fun _ h => h)
  exact ⟨fun _ => h, fun p _ _ => h.modifyNode (fun _ => rfl) fun _ => Node.combined_of_not rfl⟩

theorem BuilderCall.ends_combining (b : BuilderCall) (hw : w.WellFormed) (h : w.Combining)
    (hhas : ∀ x ∈ b.mentions, w.Has x) :
    b.build.Ends w (fun _ w' => w'.Combining) Workspace.Combining := by
  have hchecked (hfirst : b.checksFirst = true) : b.build.Ends w
      (fun _ w' => w'.Combining) Workspace.Combining :=
    ends_of_add hfirst h fun _ _ _ _ hmakes _ hn =>
      Build.ends_add_combining hw h hn (mentions_of_makes? hmakes ▸ hhas)
  cases b with
  | placeholder g name d axes => exact Build.ends_placeholder_combining hw h g name d axes
  | placeholderWithPadding g name p d axes =>
    exact Build.ends_placeholderWithPadding_combining hw h g name p d axes
  | withName x label => exact h.withName x label
  | _ => exact hchecked rfl

/-- **Nodes that combine operands have the common shape of these**, whatever calls were made. -/
theorem Workspace.Built.combining (hw : w.Built) : w.Combining := by
  induction hw with
  | empty =>
    intro r hr
    simp [Has, Workspace.empty, graph] at hr
  | addGraph name _ ih =>
    intro r hr
    rw [node_addGraph]
    exact (ih r (has_addGraph.1 hr)).congr fun x _ => by rw [node_addGraph]
  | @call w b hbuilt hhas ih =>
    have hends := b.ends_combining hbuilt.wellFormed ih hhas
    rw [Build.Ends] at hends
    split at hends <;> rename_i heq <;> rw [heq] <;> exact hends

end Combined

namespace Node

variable {c x : Node}

theorem Reads.mem_zip (h : c.Reads x) {a : AlignedAxis} (ha : a ∈ c.alignedAxes x) :
    (a.own, a.out) ∈ (expandToRank x.axes c.rank).zip c.axes := by
  rw [← h.map_alignedAxes]
  exact List.mem_map.2 ⟨a, ha, rfl⟩

theorem Reads.fits_of_mem (h : c.Reads x) {a : AlignedAxis} (ha : a ∈ c.alignedAxes x) :
    a.own.Fits a.out :=
  List.forall₂_zip h.fits (h.mem_zip ha)

/-- **Where padding is not replicated, it meets padding**: an axis that is not padded and stands
beside a padded one has a single lane, which is then replicated. -/
theorem Reads.isPadded_of_out (h : c.Reads x) (hc : ∀ a ∈ c.axes, a.Valid) {a : AlignedAxis}
    (ha : a ∈ c.alignedAxes x) (hout : a.out.isPadded = true) (hb : a.isBroadcast = false) :
    a.own.isPadded = true := by
  rcases h.fits_of_mem ha with heq | hone
  · rwa [heq]
  · have hpos := (hc a.out (List.of_mem_zip (h.mem_zip ha)).2).1
    have hnot : ¬a.own.isBroadcast a.out = true := by simpa [AlignedAxis.isBroadcast] using hb
    rw [Axis.isBroadcast_iff] at hnot
    simp only [Axis.isPadded, decide_eq_true_eq] at hout ⊢
    omega

end Node

/-! ## The invariant -/

namespace Workspace

/-- The invariant of the node `c`. -/
structure Consistent (w : Workspace) (c : NodeRef) : Prop where
  /-- The node reads nodes of its graph that were made before it. -/
  inputs : ∀ x ∈ (w.node c).inputs, w.Has x ∧ x.graph = c.graph ∧ x.index < c.index
  axes : ∀ a ∈ (w.node c).axes, 0 < a.extent ∧ a.extent ≤ a.size
  /-- Aligned to the right, each axis of an operand is the consumer's axis or has a single real
  lane. -/
  aligned : (w.node c).op.isPointwise = true → ∀ x ∈ (w.node c).inputs,
    (w.node x).rank ≤ (w.node c).rank ∧
      ∀ a ∈ (w.node c).alignedAxes (w.node x), a.own = a.out ∨ a.own.extent = 1
  /-- Padding of a consumer is computed from padding, unless it is filled by replication. -/
  padded : (w.node c).op.isPointwise = true → ∀ x ∈ (w.node c).inputs,
    ∀ a ∈ (w.node c).alignedAxes (w.node x),
      a.out.isPadded = true → a.isBroadcast = false → a.own.isPadded = true
  reduced : ∀ fn axes keep, (w.node c).op = .reduce fn axes keep →
    ∃ x, (w.node c).operands = [.node x] ∧ axes.Pairwise (· < ·) ∧ ∀ i ∈ axes, i < (w.node x).rank

theorem WellFormed.consistent {w : Workspace} (hw : w.WellFormed) {c : NodeRef} (hc : w.Has c) :
    w.Consistent c := by
  have hformed := hw c hc
  constructor
  case inputs =>
    intro x hx
    exact ⟨(hw.has_input hc hx).2, hformed.earlier x hx⟩
  case axes => exact hformed.valid
  case aligned =>
    intro hop x hx
    have hreads := hformed.reads hop x hx
    exact ⟨hreads.rank_le, fun a ha => hreads.fits_of_mem ha⟩
  case padded =>
    intro hop x hx a ha
    exact (hformed.reads hop x hx).isPadded_of_out hformed.valid ha
  case reduced =>
    intro fn axes keep hop
    obtain ⟨x, hx, haxes, -⟩ := hformed.reduces fn axes keep hop
    refine ⟨x, hx, ?_, fun i hi => ?_⟩
    · rw [haxes]
      exact List.pairwise_lt_range.filter _
    · rw [haxes] at hi
      exact List.mem_range.1 (List.mem_filter.1 hi).1

/-- **The invariant of the builders**: after any sequence of calls, all nodes are consistent, and
whatever call is made next, its node is found at the position that it answers, behind all others. -/
theorem consistent_of_built {w : Workspace} (hw : w.Built) :
    (∀ c, w.Has c → w.Consistent c) ∧
      ∀ b : BuilderCall, b.RefersTo w → b.build.Ends w
        (fun r w' => w.Appends r w' ∨ ∃ label, b = .withName r label ∧ w' = w.withName r label)
        fun w' => w' = w ∨ ∃ r, w.Appends r w' :=
  ⟨fun _ hc => hw.wellFormed.consistent hc, fun _ hb => BuilderCall.ends_appends hb⟩

/-- A matrix scaled by a single lane and summed over its rows.  The third call fails, but leaves a
node. -/
def scaledRows : Workspace :=
  (Workspace.empty.addGraph "rows").calls
    [.placeholder 0 "x" .float32 [⟨4, 3⟩, ⟨16, 15⟩], .placeholder 0 "s" .float32 [⟨8, 1⟩],
      .placeholderWithPadding 0 "t" none .float32 [⟨16, 15⟩], .binary (.binary .mul) (.node ⟨0, 0⟩)
        (.node ⟨0, 1⟩),
      .reduce (.reduce .sum) ⟨0, 3⟩ false [-1, 1]]

/-- The product of the fourth call is the node 3, and the next node is the node 5. -/
theorem consistent_scaledRows :
    scaledRows.Built ∧ scaledRows.Consistent ⟨0, 3⟩ ∧ scaledRows.Consistent ⟨0, 4⟩ ∧
      ∃ w', (BuilderCall.unary (.unary .exp) ⟨0, 4⟩).build.on scaledRows = (.ok ⟨0, 5⟩, w') ∧
        scaledRows.Appends ⟨0, 5⟩ w' := by
  have hbuilt : scaledRows.Built := (Built.addGraph "rows" .empty).calls (by decide)
  obtain ⟨hconsistent, hcalls⟩ := consistent_of_built hbuilt
  have hends := hcalls (.unary (.unary .exp) ⟨0, 4⟩) (by decide)
  have hanswer : ((BuilderCall.unary (.unary .exp) ⟨0, 4⟩).build.on scaledRows).1 = .ok ⟨0, 5⟩ := by
    decide
  refine ⟨hbuilt, hconsistent _ (by decide), hconsistent _ (by decide), ?_⟩
  rw [Build.Ends] at hends
  split at hends <;> rename_i heq <;> rw [heq] at hanswer
  · obtain rfl := Except.ok.inj hanswer
    rcases hends with happends | ⟨label, hname, -⟩
    · exact ⟨_, heq, happends⟩
    · exact absurd hname (by simp)
  · exact absurd hanswer (by simp)

end Workspace
end LanePadding
