import Mathlib.Data.List.Forall2
import Mathlib.Data.List.Sort
import LanePadding.Graph.Lanes

/-!
# Graphs made with the builders

A workspace is *built* if it is the result of a sequence of builder calls, each of which may fail
and refers to existing nodes only.  This file proves what the nodes of a built workspace have in
common: a node reads earlier nodes of its own graph, its axes are valid, and its shape and element
type are those its operator gives to what it reads.

## What is here

* `BuilderCall`, `Workspace.Built` — the calls and their sequences.
* `Axis.Fits` — an operand's axis is the consumer's, or one that can be replicated to it;
  `Axis.fits_of_join` says that a joined axis fits both.
* `Node.Reads` — a consumer's axes fit those of an operand, aligned to the right.
* `Node.Typed` — the element types of a node and of its operands go together.
* `Node.Formed` — what a builder guarantees of the node that it adds.
* `Build.ends_placeholderWithPadding_of` — the only builder that checks an argument after it added
  its node.
* `Workspace.Built.formed` — every node of a built workspace is formed.
-/

set_option autoImplicit false

namespace LanePadding

section InsertLast

variable {α : Type} [DecidableEq α] {xs : List α} {x y : α}

theorem mem_insertLast : y ∈ insertLast xs x ↔ y ∈ xs ∨ y = x := by
  rw [insertLast]
  split
  · rename_i hx
    constructor
    · exact .inl
    · rintro (h | rfl)
      · exact h
      · exact hx
  · rw [List.mem_append, List.mem_singleton]

theorem nodup_insertLast (h : xs.Nodup) (x : α) : (insertLast xs x).Nodup := by
  rw [insertLast]
  split
  · exact h
  · rename_i hx
    refine List.nodup_append.2 ⟨h, by simp, fun a ha b hb hab => hx ?_⟩
    rwa [← List.mem_singleton.1 hb, ← hab]

end InsertLast

/-! ## Sequences of calls -/

/-- A call of a builder with its arguments. -/
inductive BuilderCall where
  | placeholder (g : Nat) (name : String) (d : DType) (axes : List Axis)
  | placeholderWithPadding (g : Nat) (name : String) (padding : Option PaddingValue) (d : DType)
      (axes : List Axis)
  | constant (g : Nat) (value : Scalar) (axes : List Axis)
  | unary (op : OpKind) (x : NodeRef)
  | cast (x : NodeRef) (d : DType)
  | binary (op : OpKind) (lhs rhs : Operand)
  | broadcast (x : NodeRef) (axes : List Axis)
  | reduce (op : OpKind) (x : NodeRef) (keepDims : Bool) (axes : List Int)
  | compare (lhs rhs : Operand) (mode : CompareMode)
  | select (cond : NodeRef) (onTrue onFalse : Operand)
  | cmpSel (lhs rhs : Operand) (mode : CompareMode) (onTrue onFalse : Operand)
  | withName (x : NodeRef) (label : String)

namespace BuilderCall

/-- The builder with its arguments. -/
def build : BuilderCall → Build NodeRef
  | .placeholder g name d axes => Build.placeholder g name d axes
  | .placeholderWithPadding g name p d axes => Build.placeholderWithPadding g name p d axes
  | .constant g v axes => Build.constant g v axes
  | .unary op x => Build.unary op x
  | .cast x d => Build.cast x d
  | .binary op lhs rhs => Build.binary op lhs rhs
  | .broadcast x axes => Build.broadcast x axes
  | .reduce op x keep axes => Build.reduce op x keep axes
  | .compare lhs rhs mode => Build.compare lhs rhs mode
  | .select cond t f => Build.select cond t f
  | .cmpSel lhs rhs mode t f => Build.cmpSel lhs rhs mode t f
  | .withName x label => Build.withName x label

/-- The nodes that the arguments mention. -/
def mentions : BuilderCall → List NodeRef
  | .placeholder .. | .placeholderWithPadding .. | .constant .. => []
  | .unary _ x | .cast x _ | .broadcast x _ | .reduce _ x _ _ | .withName x _ => [x]
  | .binary _ lhs rhs | .compare lhs rhs _ => [lhs, rhs].filterMap Operand.node?
  | .select cond t f => [.node cond, t, f].filterMap Operand.node?
  | .cmpSel lhs rhs _ t f => [lhs, rhs, t, f].filterMap Operand.node?

end BuilderCall

namespace Workspace

/-- Whether there is a node with this identity. -/
def Has (w : Workspace) (r : NodeRef) : Prop := r.index < (w.graph r.graph).nodes.size

instance (w : Workspace) (r : NodeRef) : Decidable (w.Has r) := inferInstanceAs (Decidable (_ < _))

/-- The workspace is the result of a sequence of builder calls.  A call that fails counts as well,
with whatever it added before failing. -/
inductive Built : Workspace → Prop
  | empty : Built .empty
  | addGraph {w : Workspace} (name : String) : Built w → Built (w.addGraph name)
  | call {w : Workspace} (b : BuilderCall) : Built w → (∀ x ∈ b.mentions, w.Has x) →
      Built (b.build.on w).2

/-- The workspace after a sequence of builder calls. -/
def calls (w : Workspace) (bs : List BuilderCall) :
    Workspace := bs.foldl (fun w b => (b.build.on w).2) w

/-- Each call mentions only nodes that are there when it is made. -/
def Admits : Workspace → List BuilderCall → Prop
  | _, [] => True
  | w, b :: bs => (∀ x ∈ b.mentions, w.Has x) ∧ Admits (b.build.on w).2 bs

instance decidableAdmits : (w : Workspace) → (bs : List BuilderCall) → Decidable (w.Admits bs)
  | _, [] => inferInstanceAs (Decidable True)
  | w, b :: bs => @instDecidableAnd _ _ _ (decidableAdmits (b.build.on w).2 bs)

theorem Built.calls {w : Workspace} (hw : w.Built) {bs : List BuilderCall} (h : w.Admits bs) :
    (w.calls bs).Built := by
  induction bs generalizing w with
  | nil => exact hw
  | cons b bs ih => exact ih (hw.call b h.1) h.2

end Workspace

/-! ## Axes that fit -/

/-- An operand's axis can be read in place of the consumer's axis `out`: the two are the same, or
the single real lane of the operand stands for all lanes. -/
def Axis.Fits (own out : Axis) : Prop := own = out ∨ own.extent = 1

instance (own out : Axis) : Decidable (own.Fits out) := inferInstanceAs (Decidable (_ ∨ _))

namespace Axis

theorem Fits.refl (a : Axis) : a.Fits a := .inl rfl

theorem Fits.trans {a b c : Axis} (h : a.Fits b) (h' : b.Fits c) : a.Fits c := by
  rcases h with rfl | h
  · exact h'
  · exact .inr h

/-- Fitting is transitive on whole shapes. -/
theorem shapes_fit_trans {as bs cs : List Axis} (h : List.Forall₂ Fits as bs)
    (h' : List.Forall₂ Fits bs cs) : List.Forall₂ Fits as cs := by
  induction h generalizing cs with
  | nil => exact h'
  | cons hab _ ih =>
    cases h' with
    | cons hbc hrest => exact .cons (hab.trans hbc) (ih hrest)

/-- Both axes fit the axis they are joined to. -/
theorem fits_of_join {out axis joined : Axis} (h : out.join axis = some joined) :
    out.Fits joined ∧ axis.Fits joined := by
  rw [join] at h
  split at h
  · rename_i heq
    obtain rfl := Option.some.inj h
    exact ⟨.refl _, .inl heq⟩
  · split at h
    · rename_i hone
      exact ⟨.inr hone.2, .inr hone.1⟩
    · split at h
      · rename_i hone
        obtain rfl := Option.some.inj h
        exact ⟨.refl _, .inr hone⟩
      · split at h
        · rename_i hone
          obtain rfl := Option.some.inj h
          exact ⟨.inr hone, .refl _⟩
        · exact absurd h (by simp)

end Axis

@[simp] theorem length_expandToRank {axes : List Axis} {rank : Nat} (h : axes.length ≤ rank) :
    (expandToRank axes rank).length = rank := by
  simp [expandToRank, h]

namespace Workspace

/-- Joining goes on axis by axis. -/
theorem joinAxes_cons_eq_ok {op : OpKind} {x : NodeRef} {i : Nat} {out axis : Axis}
    {outs axes joined : List Axis} (h : joinAxes op x i (out :: outs) (axis :: axes) = .ok joined) :
    ∃ j rest, out.join axis = some j ∧ joinAxes op x (i + 1) outs axes = .ok rest ∧
      joined = j :: rest := by
  rw [joinAxes] at h
  split at h
  · exact absurd h (by simp)
  · rename_i j hj
    cases hrest : joinAxes op x (i + 1) outs axes with
    | error e => simp [hrest, bind, Except.bind] at h
    | ok rest =>
      exact ⟨j, rest, hj, rfl, by simpa [hrest, bind, Except.bind, pure, Except.pure] using h.symm⟩

/-- Joining keeps the rank, and both shapes fit the joined one. -/
theorem fits_of_joinAxes {op : OpKind} {x : NodeRef} {i : Nat} {outs axes joined : List Axis}
    (hlen : outs.length = axes.length) (h : joinAxes op x i outs axes = .ok joined) :
    List.Forall₂ Axis.Fits outs joined ∧ List.Forall₂ Axis.Fits axes joined := by
  induction outs generalizing i axes joined with
  | nil =>
    obtain rfl : axes = [] := List.eq_nil_of_length_eq_zero hlen.symm
    obtain rfl : [] = joined := by simpa [joinAxes] using h
    exact ⟨.nil, .nil⟩
  | cons out outs ih =>
    cases axes with
    | nil => simp at hlen
    | cons axis axes =>
      obtain ⟨j, rest, hj, hrest, rfl⟩ := joinAxes_cons_eq_ok h
      obtain ⟨hout, hown⟩ := ih (by simpa using hlen) hrest
      obtain ⟨hj1, hj2⟩ := Axis.fits_of_join hj
      exact ⟨.cons hj1 hout, .cons hj2 hown⟩

theorem rank_le_maxRank {w : Workspace} {operands : List Operand} {x : NodeRef}
    (hx : x ∈ operands.filterMap Operand.node?) : (w.node x).rank ≤ w.maxRank operands := by
  have hfold : ∀ (xs : List NodeRef) (r : Nat),
      r ≤ xs.foldl (fun r x => max r (w.node x).rank) r ∧
        (x ∈ xs → (w.node x).rank ≤ xs.foldl (fun r x => max r (w.node x).rank) r) := by
    intro xs
    induction xs with
    | nil => intro r; simp
    | cons y ys ih =>
      intro r
      obtain ⟨hle, hmem⟩ := ih (max r (w.node y).rank)
      refine ⟨by rw [List.foldl_cons]; omega, fun h => ?_⟩
      rw [List.foldl_cons]
      rcases List.mem_cons.1 h with rfl | h
      · omega
      · exact hmem h
  exact (hfold _ 0).2 hx

/-- Every operand's shape, filled up with single lanes, fits the common shape. -/
theorem fits_of_broadcastShape {w : Workspace} {op : OpKind} {operands : List Operand}
    {axes : List Axis} (h : w.broadcastShape op operands = .ok axes) {x : NodeRef}
    (hx : x ∈ operands.filterMap Operand.node?) :
    List.Forall₂ Axis.Fits (expandToRank (w.node x).axes (w.maxRank operands)) axes := by
  have hrank : ∀ y ∈ operands.filterMap Operand.node?,
      (expandToRank (w.node y).axes (w.maxRank operands)).length = w.maxRank operands :=
    fun y hy => length_expandToRank (rank_le_maxRank hy)
  simp only [broadcastShape] at h
  generalize w.maxRank operands = rank at h hrank ⊢
  -- what is joined so far fits all that comes
  have hfold : ∀ (xs : List NodeRef) (out : List Axis), out.length = rank →
      (∀ y ∈ xs, (expandToRank (w.node y).axes rank).length = rank) →
      xs.foldlM (fun out y => joinAxes op y 0 out (expandToRank (w.node y).axes rank)) out =
        .ok axes → List.Forall₂ Axis.Fits out axes ∧
        ∀ y ∈ xs, List.Forall₂ Axis.Fits (expandToRank (w.node y).axes rank) axes := by
    intro xs
    induction xs with
    | nil =>
      intro out _ _ hok
      obtain rfl : out = axes := by simpa [pure, Except.pure] using hok
      exact ⟨List.forall₂_same.2 fun a _ => .refl a, by simp⟩
    | cons y ys ih =>
      intro out hout hlen hok
      rw [List.foldlM_cons] at hok
      cases hj : joinAxes op y 0 out (expandToRank (w.node y).axes rank) with
      | error e => simp [hj, bind, Except.bind] at hok
      | ok joined =>
        rw [hj] at hok
        obtain ⟨hfit, hown⟩ := fits_of_joinAxes (hout.trans (hlen y (by simp)).symm) hj
        obtain ⟨hjoined, hrest⟩ :=
          ih joined (hfit.length_eq.symm.trans hout) (fun z hz => hlen z (by simp [hz])) hok
        have htrans : ∀ {l : List Axis}, List.Forall₂ Axis.Fits l joined →
            List.Forall₂ Axis.Fits l axes :=
          fun hl => Axis.shapes_fit_trans hl hjoined
        refine ⟨htrans hfit, fun z hz => ?_⟩
        rcases List.mem_cons.1 hz with rfl | hz
        · exact htrans hown
        · exact hrest z hz
  split at h
  · rename_i hnil
    simp [hnil] at hx
  · rename_i y ys hcons
    rw [hcons] at hx hrank
    obtain ⟨hfirst, hrest⟩ := hfold ys _ (hrank y (by simp)) (fun z hz => hrank z (by simp [hz])) h
    rcases List.mem_cons.1 hx with rfl | hx
    · exact hfirst
    · exact hrest x hx

end Workspace

/-! ## Formed nodes -/

/-- Whether the operator computes each lane from one lane of each operand. -/
def Op.isPointwise : Op → Bool
  | .unary _ | .cast | .binary _ | .broadcast | .compare _ | .select | .cmpSel _ => true
  | _ => false

namespace Node

/-- The consumer `c` can read the lanes of `x`: its axes, aligned to the right, fit the
consumer's. -/
structure Reads (c x : Node) : Prop where
  rank_le : x.rank ≤ c.rank
  fits : List.Forall₂ Axis.Fits (expandToRank x.axes c.rank) c.axes

/-- The element types of a node and of its operands are as the operator has them. -/
def Typed (w : Workspace) (n : Node) : Prop :=
  match n.op, n.operands with
  | .placeholder declared, _ =>
    n.dtype.isSupported = true ∧
      ∀ p ∈ declared, ∀ v, p.content = .exact v → v.dtype = n.dtype
  | .constant v, _ => n.dtype.isSupported = true ∧ v.dtype = n.dtype
  | .cast, _ => n.dtype.isSupported = true
  | .compare mode, [lhs, rhs] =>
    mode.isKnown = true ∧ n.dtype = .bool ∧ w.operandDType lhs = w.operandDType rhs
  | .select, [cond, t, f] =>
    w.operandDType cond = .bool ∧ w.operandDType t = n.dtype ∧ w.operandDType f = n.dtype
  | .cmpSel mode, [lhs, rhs, t, f] =>
    mode.isKnown = true ∧ w.operandDType lhs = w.operandDType rhs ∧
      w.operandDType t = n.dtype ∧ w.operandDType f = n.dtype
  | _, operands => ∀ o ∈ operands, w.operandDType o = n.dtype

/-- Only the element types of the operands matter. -/
theorem Typed.congr {w w' : Workspace} {n : Node} (h : n.Typed w)
    (hdtype : ∀ o ∈ n.operands, w'.operandDType o = w.operandDType o) : n.Typed w' := by
  obtain ⟨label, op, operands, d, axes⟩ := n
  simp only [Typed] at h hdtype ⊢
  split <;> simp_all

/-- What builders guarantee of the node `r`. -/
structure Formed (w : Workspace) (r : NodeRef) (n : Node) : Prop where
  /-- The node reads earlier nodes of its graph. -/
  earlier : ∀ x ∈ n.inputs, x.graph = r.graph ∧ x.index < r.index
  valid : ∀ a ∈ n.axes, a.Valid
  arity : n.op.kind.arity? = some n.operands.length
  reads : n.op.isPointwise = true → ∀ x ∈ n.inputs, n.Reads (w.node x)
  /-- A reduction lists its axes in increasing order and has the shape that it leaves. -/
  reduces : ∀ fn axes keep, n.op = .reduce fn axes keep → ∃ x, n.operands = [.node x] ∧
    axes = (List.range (w.node x).rank).filter (· ∈ axes) ∧
    n.axes = Build.axesAfterReduce (w.node x).axes axes keep
  typed : n.Typed w

/-- A node stays formed as long as the shapes and element types that it reads do not change. -/
theorem Formed.congr {w w' : Workspace} {r : NodeRef} {n : Node} (h : n.Formed w r)
    (haxes : ∀ x ∈ n.inputs, (w'.node x).axes = (w.node x).axes)
    (hdtype : ∀ x ∈ n.inputs, (w'.node x).dtype = (w.node x).dtype) : n.Formed w' r where
  earlier := h.earlier
  valid := h.valid
  arity := h.arity
  reads hop x hx := by
    obtain ⟨hrank, hfits⟩ := h.reads hop x hx
    exact ⟨by simpa only [rank, haxes x hx] using hrank, by rwa [haxes x hx]⟩
  reduces fn axes keep hop := by
    obtain ⟨x, hx, haxes', hshape⟩ := h.reduces fn axes keep hop
    refine ⟨x, hx, ?_⟩
    rw [rank, haxes x (by simp [inputs, hx, Operand.node?])]
    exact ⟨haxes', hshape⟩
  typed := by
    refine h.typed.congr fun o ho => ?_
    cases o with
    | node x => exact hdtype x (List.mem_filterMap.2 ⟨_, ho, rfl⟩)
    | scalar v => rfl
    | symbol name d => rfl

end Node

/-- All nodes are formed. -/
def Workspace.WellFormed (w : Workspace) : Prop := ∀ r, w.Has r → (w.node r).Formed w r

theorem Workspace.WellFormed.has_input {w : Workspace} (hw : w.WellFormed) {r x : NodeRef}
    (hr : w.Has r) (hx : x ∈ (w.node r).inputs) : x.graph = r.graph ∧ w.Has x := by
  obtain ⟨hgraph, hindex⟩ := (hw r hr).earlier x hx
  refine ⟨hgraph, ?_⟩
  rw [Has, hgraph]
  exact Nat.lt_trans hindex hr

/-- No node reads itself. -/
theorem Workspace.WellFormed.not_mem_inputs {w : Workspace} (hw : w.WellFormed) {x : NodeRef}
    (hx : w.Has x) :
    x ∉ (w.node x).inputs := fun hinput => Nat.lt_irrefl _ ((hw x hx).earlier x hinput).2

/-! ## Outcomes of builders -/

namespace Build

variable {α β : Type}

/-- A builder ends well in a workspace with `Q`, or fails and leaves one with `E`. -/
def Ends (b : Build α) (w : Workspace) (Q : α → Workspace → Prop) (E : Workspace → Prop) : Prop :=
  match b.on w with
  | (.ok a, w') => Q a w'
  | (.error _, w') => E w'

variable {w : Workspace} {Q : α → Workspace → Prop} {E : Workspace → Prop}

@[simp] theorem ends_pure {a : α} : (pure a : Build α).Ends w Q E ↔ Q a w := Iff.rfl

@[simp] theorem ends_throw {e : BuildError} : (throw e : Build α).Ends w Q E ↔ E w := Iff.rfl

@[simp] theorem ends_bind {b : Build α} {f : α → Build β} {Q : β → Workspace → Prop} :
    (b >>= f).Ends w Q E ↔ b.Ends w (fun a w' => (f a).Ends w' Q E) E := by
  have hbind : (b >>= f).on w = match b.on w with
      | (.ok a, w') => (f a).on w'
      | (.error e, w') => (.error e, w') := by
    change (ExceptT.run (b >>= f)).run w = _
    rw [ExceptT.run_bind, StateT.run_bind]
    change (match (ExceptT.run b).run w with | (a, w') => _) = _
    rw [on]
    rcases (ExceptT.run b).run w with ⟨_ | a, w'⟩ <;> rfl
  simp only [Ends, hbind]
  rcases b.on w with ⟨_ | a, w'⟩ <;> rfl

@[simp] theorem ends_get {Q : Workspace → Workspace → Prop} :
    (get : Build Workspace).Ends w Q E ↔ Q w w := Iff.rfl

@[simp] theorem ends_set {w' : Workspace} {Q : PUnit → Workspace → Prop} :
    (set w' : Build PUnit).Ends w Q E ↔ Q ⟨⟩ w' := Iff.rfl

@[simp] theorem ends_modify {f : Workspace → Workspace} {Q : PUnit → Workspace → Prop} :
    (modify f : Build PUnit).Ends w Q E ↔ Q ⟨⟩ (f w) := Iff.rfl

@[simp] theorem ends_lift {x : Except BuildError α} :
    (liftM x : Build α).Ends w Q E ↔
      match x with
      | .ok a => Q a w
      | .error _ => E w := by
  cases x <;> rfl

end Build

/-! ## Adding and changing nodes -/

namespace Workspace

theorem graph_push (w : Workspace) (g : Nat) (n : Node) (h : Nat) :
    (w.push g n).graph h =
      if g = h ∧ g < w.graphs.size then
        { w.graph g with nodes := (w.graph g).nodes.push n }
      else w.graph h := by
  unfold push graph
  by_cases hsize : h < w.graphs.size
  · by_cases hg : g = h
    · subst hg
      simp [hsize, Array.getElem_modify]
    · simp [hsize, Array.getElem_modify, hg]
  · have hg : ¬(g = h ∧ g < w.graphs.size) := fun hg => hsize (hg.1 ▸ hg.2)
    simp [hsize, hg]

theorem graph_modifyNode (w : Workspace) (r : NodeRef) (f : Node → Node) (h : Nat) :
    (w.modifyNode r f).graph h =
      if r.graph = h then { w.graph h with nodes := (w.graph h).nodes.modify r.index f }
      else w.graph h := by
  unfold modifyNode graph
  by_cases hsize : h < w.graphs.size
  · by_cases hg : r.graph = h
    · subst hg
      simp [hsize, Array.getElem_modify]
    · simp [hsize, Array.getElem_modify, hg]
  · simp [hsize]

theorem has_push {w : Workspace} {g : Nat} {n : Node} {r : NodeRef} (h : (w.push g n).Has r) :
    w.Has r ∨ r = ⟨g, (w.graph g).nodes.size⟩ ∧ (w.push g n).node r = n := by
  simp only [Has, graph_push] at h
  split at h
  · rename_i hg
    obtain ⟨rfl, hsize⟩ := hg
    simp only [Array.size_push] at h
    rcases Nat.lt_succ_iff_lt_or_eq.1 h with h | h
    · exact .inl h
    · refine .inr ⟨by rw [← h], ?_⟩
      simp [node, graph_push, hsize, Graph.node, h]
  · exact .inl h

theorem node_push {w : Workspace} {g : Nat} {n : Node} {r : NodeRef} (h : w.Has r) :
    (w.push g n).node r = w.node r := by
  simp only [node, graph_push]
  split
  · rename_i hg
    obtain ⟨rfl, -⟩ := hg
    have hlt : r.index < (w.graph r.graph).nodes.size := h
    simp [Graph.node, Array.getElem?_push, Nat.ne_of_lt hlt]
  · rfl

theorem has_modifyNode {w : Workspace} {r x : NodeRef} {f : Node → Node} :
    (w.modifyNode r f).Has x ↔ w.Has x := by
  simp only [Has, graph_modifyNode]
  split <;> simp

theorem node_modifyNode {w : Workspace} {r x : NodeRef} {f : Node → Node} (h : w.Has x) :
    (w.modifyNode r f).node x = if r = x then f (w.node x) else w.node x := by
  have hlt : x.index < (w.graph x.graph).nodes.size := h
  simp only [node, graph_modifyNode]
  by_cases hx : r = x
  · subst hx
    simp [Graph.node, Array.getElem_modify, hlt]
  · have hor : r.graph ≠ x.graph ∨ r.index ≠ x.index := by
      by_contra hand
      push Not at hand
      exact hx (by cases r; cases x; simp_all)
    rw [if_neg hx]
    rcases hor with hg | hi
    · rw [if_neg hg]
    · split
      · simp [Graph.node, Array.getElem?_modify, hi]
      · rfl

/-- A workspace stays well formed when a formed node is added. -/
theorem WellFormed.push {w : Workspace} (hw : w.WellFormed) {g : Nat} {n : Node}
    (hn : n.Formed w ⟨g, (w.graph g).nodes.size⟩) : (w.push g n).WellFormed := by
  have hkeep : ∀ (m : Node) (r : NodeRef), w.Has r ∨ r = ⟨g, (w.graph g).nodes.size⟩ →
      m.Formed w r → m.Formed (w.push g n) r := by
    intro m r hr hm
    have hnode : ∀ x ∈ m.inputs, (w.push g n).node x = w.node x := by
      intro x hx
      obtain ⟨hgraph, hindex⟩ := hm.earlier x hx
      refine node_push ?_
      rw [Has, hgraph]
      rcases hr with hr | rfl
      · exact Nat.lt_trans hindex hr
      · exact hindex
    exact hm.congr (fun x hx => by rw [hnode x hx]) fun x hx => by rw [hnode x hx]
  intro r hr
  rcases has_push hr with hold | ⟨hnew, hnode⟩
  · rw [node_push hold]
    exact hkeep _ _ (.inl hold) (hw r hold)
  · rw [hnode, hnew]
    exact hkeep _ _ (.inr rfl) hn

/-- A workspace stays well formed when a node is changed to one of the same shape and element type
that is formed. -/
theorem WellFormed.modifyNode {w : Workspace} (hw : w.WellFormed) {r : NodeRef} {f : Node → Node}
    (haxes : ∀ n, (f n).axes = n.axes) (hdtype : ∀ n, (f n).dtype = n.dtype)
    (hf : w.Has r → (f (w.node r)).Formed w r) : (w.modifyNode r f).WellFormed := by
  intro x hx
  rw [has_modifyNode] at hx
  have hformed : (if r = x then f (w.node x) else w.node x).Formed w x := by
    split
    · rename_i hrx
      subst hrx
      exact hf hx
    · exact hw x hx
  rw [node_modifyNode hx]
  have hhas : ∀ y ∈ (if r = x then f (w.node x) else w.node x).inputs, w.Has y := by
    intro y hy
    obtain ⟨hgraph, hindex⟩ := hformed.earlier y hy
    rw [Has, hgraph]
    exact Nat.lt_trans hindex hx
  refine hformed.congr (fun y hy => ?_) fun y hy => ?_ <;>
    rw [node_modifyNode (hhas y hy)] <;> split
  · exact haxes _
  · rfl
  · exact hdtype _
  · rfl

theorem WellFormed.withName {w : Workspace} (hw : w.WellFormed) (r : NodeRef) (label : String) :
    (w.withName r label).WellFormed :=
  hw.modifyNode (fun _ => rfl) (fun _ => rfl) fun hr =>
    { earlier := (hw r hr).earlier
      valid := (hw r hr).valid
      arity := (hw r hr).arity
      reads := fun hop x hx => ⟨((hw r hr).reads hop x hx).rank_le, ((hw r hr).reads hop x hx).fits⟩
      reduces := (hw r hr).reduces
      typed := (hw r hr).typed }

theorem forall_graph_eq_of_owner {op : OpKind} {g : Option Nat} {xs : List NodeRef} {o : Nat}
    (h : owner op g xs = .ok o) : (∀ x ∈ xs, x.graph = o) ∧ ∀ g₀ ∈ g, g₀ = o := by
  induction xs generalizing g with
  | nil =>
    cases g with
    | none => simp [owner] at h
    | some g₀ => simpa [owner] using h
  | cons x xs ih =>
    cases g with
    | none =>
      rw [owner] at h
      obtain ⟨hrest, hx⟩ := ih h
      exact ⟨by simpa using ⟨hx x.graph rfl, hrest⟩, by simp⟩
    | some g₀ =>
      rw [owner] at h
      split at h
      · rename_i hx
        obtain ⟨hrest, hg⟩ := ih h
        exact ⟨by simpa using ⟨hx.trans (hg g₀ rfl), hrest⟩, hg⟩
      · exact absurd h (by simp)

end Workspace

/-! ## Builders add formed nodes -/

namespace Build

variable {w : Workspace}

theorem Ends.mono {α : Type} {b : Build α} {Q Q' : α → Workspace → Prop} {E E' : Workspace → Prop}
    (h : b.Ends w Q E) (hQ : ∀ a w', Q a w' → Q' a w') (hE : ∀ w', E w' → E' w') :
    b.Ends w Q' E' := by
  rw [Ends] at h ⊢
  split <;> rename_i heq <;> rw [heq] at h
  · exact hQ _ _ h
  · exact hE _ h

/-- Adding a node keeps a workspace well formed if all that `add` does not check itself holds. -/
theorem ends_add (hw : w.WellFormed) {g : Option Nat} {op : Op} {d : DType} {axes : List Axis}
    {operands : List Operand} (hhas : ∀ x ∈ operands.filterMap Operand.node?, w.Has x)
    (harity : op.kind.arity? = some operands.length)
    (hreads : op.isPointwise = true → ∀ x ∈ operands.filterMap Operand.node?,
      (w.node x).rank ≤ axes.length ∧
        List.Forall₂ Axis.Fits (expandToRank (w.node x).axes axes.length) axes)
    (hreduces : ∀ fn reduced keep, op = .reduce fn reduced keep → ∃ x, operands = [.node x] ∧
      reduced = (List.range (w.node x).rank).filter (· ∈ reduced) ∧
      axes = axesAfterReduce (w.node x).axes reduced keep)
    (htyped : Node.Typed w ⟨"", op, operands, d, axes⟩) :
    (add g op d axes operands).Ends w
      (fun r w' => w'.WellFormed ∧ (w'.Has r → (w'.node r).op = op ∧ (w'.node r).dtype = d))
      Workspace.WellFormed := by
  simp only [add, ends_bind, ends_get, ends_lift]
  split
  · rename_i owner howner
    obtain ⟨hgraph, -⟩ := Workspace.forall_graph_eq_of_owner howner
    split
    · exact hw
    · rename_i hvalid
      simp only [ends_bind, ends_set, ends_pure]
      have hn : Node.Formed w ⟨owner, (w.graph owner).nodes.size⟩ ⟨"", op, operands, d, axes⟩ :=
        { earlier := fun x hx => ⟨hgraph x hx, hgraph x hx ▸ hhas x hx⟩
          valid := by simpa using hvalid
          arity := harity
          reads := fun hop x hx => ⟨(hreads hop x hx).1, (hreads hop x hx).2⟩
          reduces := hreduces
          typed := htyped }
      refine ⟨hw.push hn, fun hr => ?_⟩
      rcases Workspace.has_push hr with hold | ⟨-, hnode⟩
      · exact absurd hold (Nat.lt_irrefl _)
      · rw [hnode]
        exact ⟨rfl, rfl⟩
  · exact hw

/-- A leaf has no operands to be checked. -/
theorem ends_add_leaf (hw : w.WellFormed) {g : Nat} {op : Op} {d : DType} {axes : List Axis}
    (hop : op.kind.arity? = some 0) (htyped : Node.Typed w ⟨"", op, [], d, axes⟩) :
    (add (some g) op d axes []).Ends w
      (fun r w' => w'.WellFormed ∧ (w'.Has r → (w'.node r).op = op ∧ (w'.node r).dtype = d))
      Workspace.WellFormed := by
  refine ends_add hw (by simp) hop (by simp) (fun fn reduced keep h => ?_) htyped
  simp [h, Op.kind, OpKind.arity?] at hop

/-- A pointwise operator over operands of which each fits. -/
theorem ends_add_pointwise (hw : w.WellFormed) {op : Op} {d : DType} {axes : List Axis}
    {operands : List Operand} (hhas : ∀ x ∈ operands.filterMap Operand.node?, w.Has x)
    (harity : op.kind.arity? = some operands.length) (hop : op.isPointwise = true)
    (hfits : ∀ x ∈ operands.filterMap Operand.node?, (w.node x).rank ≤ axes.length ∧
      List.Forall₂ Axis.Fits (expandToRank (w.node x).axes axes.length) axes)
    (htyped : Node.Typed w ⟨"", op, operands, d, axes⟩) :
    (add none op d axes operands).Ends w (fun _ w' => w'.WellFormed) Workspace.WellFormed := by
  refine (ends_add hw hhas harity (fun _ => hfits) (fun fn reduced keep h => ?_) htyped).mono
    (fun _ _ h => h.1) fun _ h => h
  simp [h, Op.isPointwise] at hop

/-- A pointwise operator with the common shape of its operands. -/
theorem ends_add_broadcastShape (hw : w.WellFormed) {op : Op} {d : DType} {axes : List Axis}
    {operands : List Operand} (hhas : ∀ x ∈ operands.filterMap Operand.node?, w.Has x)
    (harity : op.kind.arity? = some operands.length) (hop : op.isPointwise = true)
    (hshape : w.broadcastShape op.kind operands = .ok axes)
    (htyped : Node.Typed w ⟨"", op, operands, d, axes⟩) :
    (add none op d axes operands).Ends w (fun _ w' => w'.WellFormed) Workspace.WellFormed := by
  refine ends_add_pointwise hw hhas harity hop (fun x hx => ?_) htyped
  have hfits := Workspace.fits_of_broadcastShape hshape hx
  have hrank : (w.node x).rank ≤ w.maxRank operands := Workspace.rank_le_maxRank hx
  have hlen : w.maxRank operands = axes.length := by
    rw [← hfits.length_eq, length_expandToRank hrank]
  exact ⟨hlen ▸ hrank, hlen ▸ hfits⟩

theorem ends_checkDType {op : OpKind} {d : DType} {Q : Unit → Workspace → Prop}
    {E : Workspace → Prop} (hQ : d.isSupported = true → Q () w) (hE : E w) :
    (checkDType op d).Ends w Q E := by
  rw [checkDType]
  split
  · rename_i hd
    exact hQ hd
  · exact hE

theorem ends_placeholder (hw : w.WellFormed) (g : Nat) (name : String) (d : DType)
    (axes : List Axis) :
    (placeholder g name d axes).Ends w
      (fun r w' => w'.WellFormed ∧
        (w'.Has r → (w'.node r).op = .placeholder none ∧ (w'.node r).dtype = d))
      Workspace.WellFormed := by
  simp only [placeholder, withName, ends_bind]
  refine ends_checkDType (fun hd => ?_) hw
  have htyped : Node.Typed w ⟨"", .placeholder none, [], d, axes⟩ := ⟨hd, by simp⟩
  refine (ends_add_leaf hw rfl htyped).mono (fun r w' h => ?_) fun _ h => h
  simp only [ends_modify, ends_pure]
  refine ⟨h.1.withName r name, fun hr => ?_⟩
  have hr' : w'.Has r := Workspace.has_modifyNode.1 hr
  rw [Workspace.withName, Workspace.node_modifyNode hr', if_pos rfl]
  exact h.2 hr'

/-- Declaring the padding of a placeholder leaves it formed, if a declared value has its element
type. -/
theorem wellFormed_declare (hw : w.WellFormed) {r : NodeRef} {d : DType} {p : PaddingValue}
    (hr : w.Has r → (w.node r).op = .placeholder none ∧ (w.node r).dtype = d)
    (hp : ∀ v, p.content = .exact v → v.dtype = d) :
    (w.modifyNode r fun n => { n with op := .placeholder (some p) }).WellFormed := by
  refine hw.modifyNode (fun _ => rfl) (fun _ => rfl) fun hhas => ?_
  have hformed := hw r hhas
  obtain ⟨hop, rfl⟩ := hr hhas
  have htyped := hformed.typed
  rw [Node.Typed, hop] at htyped
  exact
    { earlier := hformed.earlier
      valid := hformed.valid
      arity := (hop ▸ hformed.arity :)
      reads := by simp [Op.isPointwise]
      reduces := by simp
      typed := ⟨htyped.1, by simpa using hp⟩ }

/-- What is to be declared for a placeholder is missing, or it is a value of another element
type. -/
def RefusesPadding (d : DType) (padding : Option PaddingValue) : Prop :=
  ∀ p ∈ padding, ∃ v, p.content = .exact v ∧ v.dtype ≠ d

/-- **A placeholder is there when its padding value is checked**: it stays as it is if the value is
refused, and otherwise the value is declared. -/
theorem ends_placeholderWithPadding_of {g : Nat} {name : String}
    {padding : Option PaddingValue} {d : DType} {axes : List Axis} {Q : NodeRef → Workspace → Prop}
    {E : Workspace → Prop}
    (h : (placeholder g name d axes).Ends w (fun r w' => (RefusesPadding d padding → E w') ∧
      ∀ p, padding = some p → (∀ v, p.content = .exact v → v.dtype = d) →
        Q r (w'.modifyNode r fun n => { n with op := .placeholder (some p.clone) })) E) :
    (placeholderWithPadding g name padding d axes).Ends w Q E := by
  simp only [placeholderWithPadding, ends_bind]
  refine h.mono (fun r w' h => ?_) fun _ h => h
  obtain ⟨hrefused, hdeclared⟩ := h
  cases padding with
  | none => exact hrefused (by simp [RefusesPadding])
  | some p =>
    cases hp : p.content with
    | exact v =>
      by_cases hv : v.dtype = d
      · simpa only [hp, hv, ne_eq, not_true_eq_false, if_false, ends_bind, ends_modify, ends_pure]
          using hdeclared p rfl (by simp [hp, hv])
      · simpa only [hp, hv, ne_eq, not_false_eq_true, if_true, ends_bind, ends_throw]
          using hrefused (by simp [RefusesPadding, hp, hv])
    | _ => simpa only [hp, ends_bind, ends_modify, ends_pure] using hdeclared p rfl (by simp [hp])

theorem ends_placeholderWithPadding (hw : w.WellFormed) (g : Nat) (name : String)
    (padding : Option PaddingValue) (d : DType) (axes : List Axis) :
    (placeholderWithPadding g name padding d axes).Ends w (fun _ w' => w'.WellFormed)
      Workspace.WellFormed := by
  refine ends_placeholderWithPadding_of
    ((ends_placeholder hw g name d axes).mono (fun r w' h => ?_) fun _ h => h)
  exact ⟨fun _ => h.1, fun p _ hp => wellFormed_declare h.1 h.2 hp⟩

theorem fits_of_badAxis? {i : Nat} {as ts : List Axis} (hlen : as.length = ts.length)
    (h : badAxis? i as ts = none) : List.Forall₂ Axis.Fits as ts := by
  induction as generalizing i ts with
  | nil =>
    obtain rfl : ts = [] := List.eq_nil_of_length_eq_zero hlen.symm
    exact .nil
  | cons a as ih =>
    cases ts with
    | nil => simp at hlen
    | cons t ts =>
      rw [badAxis?] at h
      split at h
      · exact absurd h (by simp)
      · rename_i hfit
        exact .cons (by rw [Axis.Fits]; tauto) (ih (by simpa using hlen) h)

theorem ends_broadcast (hw : w.WellFormed) {x : NodeRef} (hx : w.Has x) (axes : List Axis) :
    (broadcast x axes).Ends w (fun _ w' => w'.WellFormed) Workspace.WellFormed := by
  have hhas : ∀ y ∈ [Operand.node x].filterMap Operand.node?, w.Has y := by
    simpa [Operand.node?] using hx
  simp only [broadcast, ends_bind, ends_get]
  split
  · exact hw
  · rename_i hrank
    have hle : (w.node x).rank ≤ axes.length := Nat.le_of_not_lt hrank
    split
    · exact hw
    · rename_i hbad
      refine ends_add_pointwise hw hhas rfl rfl ?_ (by simp [Node.Typed, Workspace.operandDType])
      simp only [Operand.node?, List.filterMap_cons, List.filterMap_nil,
        List.mem_singleton, forall_eq]
      exact ⟨hle, fits_of_badAxis? (length_expandToRank hle) hbad⟩

theorem lt_of_axisPosition? {rank i : Nat} {a : Int} (h : axisPosition? rank a = some i) :
    i < rank := by
  obtain ⟨hbounds, hi⟩ := Option.ite_none_right_eq_some.1 h
  obtain rfl := Option.some.inj hi
  omega

/-- One axis after the other is listed: none of them twice, and none outside the rank. -/
theorem listedAxes_spec {rank : Nat} {axes : List Int} {known listed : List Nat}
    (h : listedAxes rank known axes = .ok listed) (hnodup : known.Nodup)
    (hlt : ∀ i ∈ known, i < rank) :
    listed.Nodup ∧ (∀ i ∈ listed, i < rank) ∧
      ∀ i, i ∈ listed ↔ i ∈ known ∨ ∃ a ∈ axes, axisPosition? rank a = some i := by
  induction axes generalizing known with
  | nil =>
    obtain rfl := Except.ok.inj h
    exact ⟨hnodup, hlt, by simp⟩
  | cons a axes ih =>
    rw [listedAxes] at h
    cases hpos : axisPosition? rank a with
    | none => simp [hpos] at h
    | some k =>
      rw [hpos] at h
      have hk : ∀ i ∈ insertLast known k, i < rank := by
        intro i hi
        rcases mem_insertLast.1 hi with hi | rfl
        · exact hlt i hi
        · exact lt_of_axisPosition? hpos
      obtain ⟨hnodup', hlt', hmem⟩ := ih h (nodup_insertLast hnodup k) hk
      refine ⟨hnodup', hlt', fun i => ?_⟩
      rw [hmem, mem_insertLast, List.exists_mem_cons_iff, hpos, Option.some_inj, or_assoc, eq_comm]

theorem insertAxis_eq (i : Nat) (axes : List Nat) :
    insertAxis i axes = axes.orderedInsert (· ≤ ·) i := by
  induction axes with
  | nil => rfl
  | cons j axes ih => rw [insertAxis, List.orderedInsert, ih]

/-- Positions are sorted by insertion. -/
theorem sortAxes_eq (axes : List Nat) : sortAxes axes = axes.insertionSort (· ≤ ·) := by
  rw [sortAxes, List.insertionSort]
  exact congrArg (fun f => axes.foldr f []) (funext₂ insertAxis_eq)

theorem mem_sortAxes {axes : List Nat} {i : Nat} : i ∈ sortAxes axes ↔ i ∈ axes := by
  rw [sortAxes_eq, List.mem_insertionSort]

theorem pairwise_sortAxes {axes : List Nat} (h : axes.Nodup) :
    (sortAxes axes).Pairwise (· < ·) := by
  rw [sortAxes_eq]
  have hnodup := (List.perm_insertionSort (· ≤ ·) axes).nodup_iff.2 h
  have hle := List.pairwise_insertionSort (· ≤ ·) axes
  exact hle.imp₂ (fun _ _ hle hne => Nat.lt_of_le_of_ne hle hne) hnodup

/-- **The axes of a reduction are sorted and distinct**: they are those of a list, or all of
them. -/
theorem reducedAxes_spec {rank : Nat} {axes : List Int} {reduced : List Nat}
    (h : reducedAxes rank axes = .ok reduced) :
    reduced.Pairwise (· < ·) ∧ (∀ i ∈ reduced, i < rank) ∧
      ∀ i, i ∈ reduced ↔ axes = [] ∧ i < rank ∨ ∃ a ∈ axes, axisPosition? rank a = some i := by
  rw [reducedAxes] at h
  cases hlisted : listedAxes rank (if axes.isEmpty then List.range rank else []) axes with
  | error a =>
    rw [hlisted] at h
    exact absurd h (by simp [Except.map])
  | ok listed =>
    rw [hlisted] at h
    obtain rfl := Except.ok.inj h
    simp only [mem_sortAxes]
    cases axes with
    | nil =>
      obtain rfl := Except.ok.inj hlisted
      exact ⟨pairwise_sortAxes List.nodup_range, by simp, by simp⟩
    | cons a axes =>
      obtain ⟨hnodup, hlt, hmem⟩ := listedAxes_spec hlisted List.nodup_nil (by simp)
      refine ⟨pairwise_sortAxes hnodup, hlt, fun i => (hmem i).trans ?_⟩
      simp

theorem reducedAxes_eq {rank : Nat} {axes : List Int} {reduced : List Nat}
    (h : reducedAxes rank axes = .ok reduced) :
    reduced = (List.range rank).filter (· ∈ reduced) := by
  obtain ⟨hsorted, hlt, -⟩ := reducedAxes_spec h
  refine hsorted.eq_of_mem_iff (List.pairwise_lt_range.filter _) fun i => ?_
  simpa using hlt i

theorem ends_reduce (hw : w.WellFormed) {x : NodeRef} (hx : w.Has x) (op : OpKind) (keep : Bool)
    (axes : List Int) :
    (reduce op x keep axes).Ends w (fun _ w' => w'.WellFormed) Workspace.WellFormed := by
  have hhas : ∀ y ∈ [Operand.node x].filterMap Operand.node?, w.Has y := by
    simpa [Operand.node?] using hx
  cases op with
  | reduce fn =>
    simp only [reduce, ends_bind, ends_get]
    split
    · exact hw
    · rename_i reduced hreduced
      refine (ends_add hw hhas rfl (by simp [Op.isPointwise]) ?_
        (by simp [Node.Typed, Workspace.operandDType])).mono (fun _ _ h => h.1) fun _ h => h
      rintro fn' reduced' keep' hop
      obtain ⟨rfl, rfl, rfl⟩ : fn = fn' ∧ reduced = reduced' ∧ keep = keep' := by simpa using hop
      exact ⟨x, rfl, reducedAxes_eq hreduced, rfl⟩
  | _ => exact hw

/-- A unary function or conversion of a node has the node's shape. -/
theorem ends_add_sameShape (hw : w.WellFormed) {x : NodeRef} (hx : w.Has x) {op : Op} {d : DType}
    (harity : op.kind.arity? = some 1) (hop : op.isPointwise = true)
    (htyped : Node.Typed w ⟨"", op, [.node x], d, (w.node x).axes⟩) :
    (add none op d (w.node x).axes [.node x]).Ends w (fun _ w' => w'.WellFormed)
      Workspace.WellFormed := by
  refine ends_add_pointwise hw (by simpa [Operand.node?] using hx) harity hop ?_ htyped
  simp only [Operand.node?, List.filterMap_cons, List.filterMap_nil, List.mem_singleton, forall_eq]
  refine ⟨Nat.le_refl _, ?_⟩
  simp only [expandToRank, Nat.sub_self, List.replicate_zero, List.nil_append]
  exact List.forall₂_same.2 fun a _ => .refl a

theorem ends_unary (hw : w.WellFormed) {x : NodeRef} (hx : w.Has x) (op : OpKind) :
    (unary op x).Ends w (fun _ w' => w'.WellFormed) Workspace.WellFormed := by
  cases op with
  | unary fn =>
    simp only [unary, ends_bind, ends_get]
    exact ends_add_sameShape hw hx rfl rfl (by simp [Node.Typed, Workspace.operandDType])
  | _ => exact hw

theorem ends_cast (hw : w.WellFormed) {x : NodeRef} (hx : w.Has x) (d : DType) :
    (cast x d).Ends w (fun _ w' => w'.WellFormed) Workspace.WellFormed := by
  simp only [cast, ends_bind, ends_get]
  exact ends_checkDType (fun hd => ends_add_sameShape hw hx rfl rfl hd) hw

/-- Operands with a common element type all have it. -/
theorem operandDType_of_commonDType {op : OpKind} {first : Operand}
    {rest : List Operand} {d : DType} (h : w.commonDType op first rest = .ok d) :
    w.operandDType first = d ∧ ∀ o ∈ rest, w.operandDType o = d := by
  simp only [Workspace.commonDType] at h
  split at h
  · exact absurd h (by simp)
  · rename_i hnone
    obtain rfl := Except.ok.inj h
    exact ⟨rfl, by simpa using hnone⟩

theorem ends_binary (hw : w.WellFormed) (op : OpKind) {lhs rhs : Operand}
    (hhas : ∀ x ∈ [lhs, rhs].filterMap Operand.node?, w.Has x) :
    (binary op lhs rhs).Ends w (fun _ w' => w'.WellFormed) Workspace.WellFormed := by
  cases op with
  | binary fn =>
    simp only [binary, ends_bind, ends_get, ends_lift]
    split
    · rename_i hd
      obtain ⟨hl, hr⟩ := operandDType_of_commonDType hd
      split
      · rename_i axes haxes
        exact ends_add_broadcastShape hw hhas rfl rfl haxes (by simpa [Node.Typed, hl] using hr)
      · exact hw
    · exact hw
  | _ => exact hw

theorem ends_compare (hw : w.WellFormed) (mode : CompareMode) {lhs rhs : Operand}
    (hhas : ∀ x ∈ [lhs, rhs].filterMap Operand.node?, w.Has x) :
    (compare lhs rhs mode).Ends w (fun _ w' => w'.WellFormed) Workspace.WellFormed := by
  by_cases hmode : mode.isKnown
  · simp only [compare, hmode, Bool.not_true, Bool.false_eq_true, if_false, ends_bind,
      ends_get, ends_lift]
    split
    · rename_i hd
      obtain ⟨hl, hr⟩ := operandDType_of_commonDType hd
      split
      · rename_i axes haxes
        exact ends_add_broadcastShape hw hhas rfl rfl haxes ⟨hmode, rfl, by simp [hl, hr]⟩
      · exact hw
    · exact hw
  · simpa [compare, hmode] using hw

theorem ends_select (hw : w.WellFormed) {cond : NodeRef} {onTrue onFalse : Operand}
    (hhas : ∀ x ∈ [.node cond, onTrue, onFalse].filterMap Operand.node?, w.Has x) :
    (select cond onTrue onFalse).Ends w (fun _ w' => w'.WellFormed) Workspace.WellFormed := by
  simp only [select, ends_bind, ends_get]
  split
  · exact hw
  · rename_i hcond
    simp only [ends_bind, ends_lift]
    split
    · rename_i hd
      obtain ⟨ht, hf⟩ := operandDType_of_commonDType hd
      split
      · rename_i axes haxes
        exact ends_add_broadcastShape hw hhas rfl rfl haxes
          ⟨not_not.1 hcond, ht, by simp [hf]⟩
      · exact hw
    · exact hw

theorem ends_cmpSel (hw : w.WellFormed) (mode : CompareMode) {lhs rhs onTrue onFalse : Operand}
    (hhas : ∀ x ∈ [lhs, rhs, onTrue, onFalse].filterMap Operand.node?, w.Has x) :
    (cmpSel lhs rhs mode onTrue onFalse).Ends w
      (fun _ w' => w'.WellFormed) Workspace.WellFormed := by
  by_cases hmode : mode.isKnown
  · simp only [cmpSel, hmode, Bool.not_true, Bool.false_eq_true, if_false, ends_bind,
      ends_get, ends_lift]
    split
    · rename_i hd
      obtain ⟨hl, hr⟩ := operandDType_of_commonDType hd
      split
      · rename_i hd
        obtain ⟨ht, hf⟩ := operandDType_of_commonDType hd
        split
        · rename_i axes haxes
          exact ends_add_broadcastShape hw hhas rfl rfl haxes
            ⟨hmode, by simp [hl, hr], ht, by simp [hf]⟩
        · exact hw
      · exact hw
    · exact hw
  · simpa [cmpSel, hmode] using hw

end Build

/-- Every call keeps a workspace well formed, also when it fails. -/
theorem BuilderCall.ends_build (b : BuilderCall) {w : Workspace} (hw : w.WellFormed)
    (hhas : ∀ x ∈ b.mentions, w.Has x) :
    b.build.Ends w (fun _ w' => w'.WellFormed) Workspace.WellFormed := by
  cases b with
  | placeholder g name d axes =>
    exact (Build.ends_placeholder hw g name d axes).mono (fun _ _ h => h.1) fun _ h => h
  | placeholderWithPadding g name p d axes =>
    exact Build.ends_placeholderWithPadding hw g name p d axes
  | constant g v axes =>
    refine (Build.ends_bind ..).2 (Build.ends_checkDType (fun hd => ?_) hw)
    have htyped : Node.Typed w ⟨"", .constant v, [], v.dtype, axes⟩ := ⟨hd, rfl⟩
    exact (Build.ends_add_leaf hw rfl htyped).mono (fun _ _ h => h.1) fun _ h => h
  | unary op x => exact Build.ends_unary hw (hhas x (by simp [mentions])) op
  | cast x d => exact Build.ends_cast hw (hhas x (by simp [mentions])) d
  | binary op lhs rhs => exact Build.ends_binary hw op hhas
  | broadcast x axes => exact Build.ends_broadcast hw (hhas x (by simp [mentions])) axes
  | reduce op x keep axes => exact Build.ends_reduce hw (hhas x (by simp [mentions])) op keep axes
  | compare lhs rhs mode => exact Build.ends_compare hw mode hhas
  | select cond t f => exact Build.ends_select hw hhas
  | cmpSel lhs rhs mode t f => exact Build.ends_cmpSel hw mode hhas
  | withName x label => exact hw.withName x label

namespace Workspace

theorem nodes_addGraph (w : Workspace) (name : String) (g : Nat) :
    ((w.addGraph name).graph g).nodes = (w.graph g).nodes := by
  simp only [addGraph, graph, Array.getD_eq_getD_getElem?, Array.getElem?_push]
  split
  · rename_i hg
    simp [hg]
  · rfl

theorem node_addGraph (w : Workspace) (name : String) (r : NodeRef) :
    (w.addGraph name).node r = w.node r := by
  simp only [node, Graph.node, nodes_addGraph]

theorem has_addGraph {w : Workspace} {name : String} {r : NodeRef} :
    (w.addGraph name).Has r ↔ w.Has r := by
  rw [Has, Has, nodes_addGraph]

theorem wellFormed_addGraph {w : Workspace} (hw : w.WellFormed) (name : String) :
    (w.addGraph name).WellFormed := by
  intro r hr
  rw [node_addGraph]
  exact (hw r (has_addGraph.1 hr)).congr (fun x _ => by rw [node_addGraph])
    fun x _ => by rw [node_addGraph]

/-- **Every node of a built workspace is formed.** -/
theorem Built.wellFormed {w : Workspace} (h : w.Built) : w.WellFormed := by
  induction h with
  | empty =>
    intro r hr
    simp [Has, Workspace.empty, graph] at hr
  | addGraph name _ ih => exact wellFormed_addGraph ih name
  | @call w b _ hhas ih =>
    have hends := b.ends_build ih hhas
    rw [Build.Ends] at hends
    split at hends <;> rename_i heq <;> rw [heq] <;> exact hends

end Workspace
end LanePadding
