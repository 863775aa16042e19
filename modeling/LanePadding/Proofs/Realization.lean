import LanePadding.Proofs.AddedNodes
import LanePadding.Proofs.DefinitionOrder
import LanePadding.Proofs.FailedCalls

/-!
# Graphs realize their descriptions

A description is a list of definitions that refer to each other by name, and a graph is a list of
nodes that refer to each other by position.  Building puts the node of each definition at the
position that the definition has in the order of `Description.order`.  `NodeDef.Realized` says what
the node has from its definition: the name, the operator, and one operand for each input, with
references resolved.

Element types are the delicate part.  A literal or a symbol has none of its own, and takes that of
the first node in the same group of inputs (`OpKind.groups`), or that of the definition if the group
has no node.

## What is here

* `BuilderCall.ensures_makes` — a call adds a node with the operator and the operands that it is
  given.
* `NodeDef.ensures_operands` — **the operands of a definition**, group by group.
* `NodeDef.ensures_realized` — **building a definition** adds a node that realizes it.
* `Workspace.Realizes` — the invariant: the nodes of a graph realize a list of definitions, one
  each.
* `Description.realized_of_build` — what is built realizes the description.
-/

set_option autoImplicit false

namespace LanePadding

/-! ## Realized definitions -/

/-- The groups of inputs that share an element type, by position. -/
def OpKind.groups : OpKind → List (List Nat)
  | .select => [[0], [1, 2]]
  | .cmpSel => [[0, 1], [2, 3]]
  | _ => [[0, 1]]

/-- The first reference among the inputs at the positions of a group. -/
def NodeDef.firstReference? (n : NodeDef) (group : List Nat) : Option String :=
  group.findSome? fun k => n.inputs[k]?.bind fun input => (InputForm.ofText input).reference?

/-- The inputs at the positions of a group have the element type `t`: that of the first node among
them, or that of the definition if there is none. -/
def NodeDef.Shares (n : NodeDef) (w : Workspace) (names : NodeNames) (group : List Nat)
    (t : DType) : Prop :=
  match n.firstReference? group with
  | some name => ∃ r, names.find? name = some r ∧ (w.node r).dtype = t
  | none => parseDType n.dtype = .ok t

/-- The node has the name and the operator of the definition, and what its inputs stand for as
operands. -/
structure NodeDef.Realized (n : NodeDef) (w : Workspace) (names : NodeNames) (node : Node) :
    Prop where
  label : node.label = n.name
  op : OpKind.parse n.op = .ok node.op.kind
  length : node.operands.length = n.inputs.length
  operands : ∀ k input o, n.inputs[k]? = some input → node.operands[k]? = some o →
    ∃ group ∈ node.op.kind.groups, k ∈ group ∧
    (InputForm.ofText input).Denotes names (n.Shares w names group) o

theorem InputForm.Denotes.mono {names names' : NodeNames} {P P' : DType → Prop}
    {form : InputForm} {o : Operand} (h : form.Denotes names P o)
    (hnames : ∀ name r, names.find? name = some r → names'.find? name = some r)
    (hP : ∀ t, P t → P' t) : form.Denotes names' P' o := by
  cases form with
  | reference name =>
    obtain ⟨r, hr, ho⟩ := h
    exact ⟨r, hnames name r hr, ho⟩
  | literal text =>
    obtain ⟨t, x, v, ht, hrest⟩ := h
    exact ⟨t, x, v, hP t ht, hrest⟩
  | symbol name =>
    obtain ⟨t, ht, ho⟩ := h
    exact ⟨t, hP t ht, ho⟩

/-- Only references stand for nodes. -/
theorem InputForm.Denotes.reference {names : NodeNames} {P : DType → Prop}
    {form : InputForm} {x : NodeRef} (h : form.Denotes names P (.node x)) :
    ∃ name, form = .reference name ∧ names.find? name = some x := by
  cases form with
  | reference name =>
    obtain ⟨r, hr, hx⟩ := h
    exact ⟨name, rfl, Operand.node.inj hx ▸ hr⟩
  | literal text =>
    obtain ⟨t, y, v, -, -, -, hx⟩ := h
    cases hx
  | symbol name =>
    obtain ⟨t, -, hx⟩ := h
    cases hx

namespace NodeDef

variable {n : NodeDef} {w w' : Workspace} {names names' : NodeNames}

/-- Definitions stay realized when more nodes are built and get names. -/
theorem Realized.mono {node : Node} (h : n.Realized w names node)
    (hnames : ∀ name r, names.find? name = some r → names'.find? name = some r)
    (hnodes : ∀ name r, names.find? name = some r → w'.node r = w.node r) :
    n.Realized w' names' node where
  label := h.label
  op := h.op
  length := h.length
  operands k input o hinput ho := by
    obtain ⟨group, hgroup, hk, hdenotes⟩ := h.operands k input o hinput ho
    refine ⟨group, hgroup, hk, hdenotes.mono hnames fun t ht => ?_⟩
    rw [Shares] at ht ⊢
    split at ht
    · obtain ⟨r, hr, hdtype⟩ := ht
      exact ⟨r, hnames _ r hr, by rwa [hnodes _ r hr]⟩
    · exact ht

end NodeDef

/-! ## Calls -/

theorem Build.Ends.ensures {α : Type} {b : Build α} {w : Workspace} {Q : α → Workspace → Prop}
    {E : Workspace → Prop} (h : b.Ends w Q E) : Describe.Ensures b w Q := by
  intro a w' ha
  rw [Build.Ends, Build.on, ha] at h
  exact h

theorem Build.ends_add_graph {w : Workspace} {g : Nat} {g? : Option Nat} (hg : ∀ g₀ ∈ g?, g₀ = g)
    {op : Op} {d : DType} {axes : List Axis} {operands : List Operand}
    (hoperands : ∀ x ∈ operands.filterMap Operand.node?, x.graph = g) :
    (add g? op d axes operands).Ends w (fun r _ => r.graph = g) fun _ => True := by
  simp only [add, ends_bind, ends_get, ends_lift]
  split
  · rename_i o ho
    obtain rfl := Workspace.eq_of_owner ho hg hoperands
    split
    · trivial
    · rfl
  · trivial

namespace BuilderCall

variable {w : Workspace} {g : Nat} {b : BuilderCall}

/-- The call is about the graph `g` and nodes of it. -/
def Within (w : Workspace) (g : Nat) (b : BuilderCall) : Prop :=
  (∀ x ∈ b.mentions, x.graph = g ∧ w.Has x) ∧ ∀ g₀ ∈ b.graph?, g₀ = g

/-- **A call adds a node with the operator and the operands that it is given**, if it checks them
first. -/
theorem ensures_makes (hb : b.Within w g) (hsize : g < w.graphs.size)
    (hfirst : b.checksFirst = true) :
    Describe.Ensures b.build w fun r w' =>
      w.Appends r w' ∧ r.graph = g ∧
      b.makes? = some ((w'.node r).op.kind, (w'.node r).operands) := by
  refine Build.Ends.ensures
    (ends_of_add hfirst (E := fun _ => True) trivial fun op d axes operands hmakes _ _ => ?_)
  rw [Within, ← mentions_of_makes? hmakes] at hb
  have hsizes : ∀ g₀ ∈ b.graph?, g₀ < w.graphs.size := fun g₀ hg => (hb.2 g₀ hg).symm ▸ hsize
  refine ((Build.ends_add_appends hsizes fun x hx => (hb.1 x hx).2).and
    (Build.ends_add_graph hb.2 fun x hx => (hb.1 x hx).1)).mono ?_ fun _ _ => trivial
  rintro r w' ⟨⟨happends, hnode⟩, hr⟩
  rw [hnode]
  exact ⟨happends, hr, hmakes⟩

end BuilderCall

/-! ## Operands -/

/-- The first answer at consecutive positions of a list. -/
theorem findSome?_range' {α β : Type} (f : α → Option β) (l : List α) (a m : Nat) :
    (List.range' a m).findSome? (fun k => l[k]?.bind f) = ((l.drop a).take m).findSome? f := by
  induction m generalizing a with
  | zero => rfl
  | succ m ih =>
    rw [List.range'_succ, List.findSome?_cons, ih]
    by_cases ha : a < l.length
    · rw [List.drop_eq_getElem_cons ha, List.take_succ_cons, List.findSome?_cons,
        List.getElem?_eq_getElem ha]
      rfl
    · have hdrop : ∀ b, a ≤ b → l.drop b = [] := fun b hb => List.drop_eq_nil_of_le (by omega)
      rw [List.getElem?_eq_none (Nat.le_of_not_lt ha), hdrop a (Nat.le_refl a),
        hdrop (a + 1) (Nat.le_succ a)]
      simp

theorem forall₂_getElem? {α β : Type} {R : α → β → Prop} {l : List α} {l' : List β}
    (h : List.Forall₂ R l l') {k : Nat} {a : α} {b : β} (ha : l[k]? = some a)
    (hb : l'[k]? = some b) : R a b := by
  obtain ⟨hk, rfl⟩ := List.getElem?_eq_some_iff.1 ha
  obtain ⟨hk', rfl⟩ := List.getElem?_eq_some_iff.1 hb
  exact h.get hk hk'

/-- Only selections have more inputs than the leading ones. -/
theorem OpKind.second_mem_groups {op : OpKind} {m : Nat} (harity : op.arity? = some m)
    (hm : op.firstGroup < m) :
    List.range' op.firstGroup 2 ∈ op.groups ∧ m = op.firstGroup + 2 := by
  cases op with
  | select | cmpSel =>
    obtain rfl := Option.some.inj harity
    exact ⟨by decide, rfl⟩
  | invalid | unknown => simp [arity?] at harity
  | _ =>
    obtain rfl := Option.some.inj harity
    exact absurd hm (by simp [firstGroup])

namespace NodeDef

variable {n : NodeDef} {op : OpKind} {w : Workspace} {names : NodeNames}

theorem firstReference?_range' (n : NodeDef) (a m : Nat) :
    n.firstReference? (List.range' a m) =
      ((n.inputs.drop a).take m).findSome? fun input => (InputForm.ofText input).reference? :=
  findSome?_range' _ _ _ _

/-- The input at position `k` is in a group whose first reference is that of the leading inputs, or
of the others. -/
theorem exists_group (harity : op.arity? = some n.inputs.length) {k : Nat}
    (hk : k < n.inputs.length) :
    ∃ group ∈ op.groups, k ∈ group ∧ n.firstReference? group =
      (if k < op.firstGroup then n.inputs.take op.firstGroup
        else n.inputs.drop op.firstGroup).findSome?
        fun input => (InputForm.ofText input).reference? := by
  by_cases hlead : k < op.firstGroup
  · refine ⟨List.range' 0 op.firstGroup, ?_, by simpa using hlead, ?_⟩
    · cases op <;> exact List.mem_cons_self
    · rw [if_pos hlead, firstReference?_range', List.drop_zero]
  · obtain ⟨hgroup, hlength⟩ :=
      OpKind.second_mem_groups harity (Nat.lt_of_le_of_lt (Nat.le_of_not_lt hlead) hk)
    refine ⟨_, hgroup, ?_, ?_⟩
    · rw [List.mem_range'_1]
      omega
    · rw [if_neg hlead, firstReference?_range', List.take_of_length_le]
      rw [List.length_drop]
      omega

/-- The element type that is known beforehand is shared by a group, and that of the definition if
none is known. -/
theorem shares_of_known (hfound : ∀ x ∈ n.references, ∃ r, names.find? x = some r)
    {inputs : List String} (hinputs : ∀ input ∈ inputs, input ∈ n.inputs) {group : List Nat}
    (hgroup : n.firstReference? group = inputs.findSome? fun input =>
      (InputForm.ofText input).reference?) :
    (∀ t ∈ knownDType? w names inputs, n.Shares w names group t) ∧
      (knownDType? w names inputs = none → ∀ t, parseDType n.dtype = .ok t →
        n.Shares w names group t) := by
  rw [knownDType?, ← hgroup]
  cases hfirst : n.firstReference? group with
  | none =>
    refine ⟨by simp, fun _ t ht => ?_⟩
    rw [Shares, hfirst]
    exact ht
  | some name =>
    rw [hgroup] at hfirst
    obtain ⟨input, hinput, hname⟩ := List.exists_of_findSome?_eq_some hfirst
    obtain ⟨r, hr⟩ := hfound name
      (List.mem_filterMap.2 ⟨_, List.mem_map_of_mem (hinputs input hinput), hname⟩)
    simp only [Option.bind_some, hr, Option.map_some, reduceCtorEq, false_implies, and_true]
    intro t ht
    obtain rfl := Option.some.inj ht
    rw [Shares, hgroup, hfirst]
    exact ⟨r, hr, rfl⟩

/-- **The operands of a definition are what its inputs stand for.** -/
theorem ensures_operands (harity : op.arity? = some n.inputs.length)
    (hfound : ∀ x ∈ n.references, ∃ r, names.find? x = some r) :
    (n.operands op names).Ensures w fun os w' => w' = w ∧ os.length = n.inputs.length ∧
      ∀ k input o, n.inputs[k]? = some input → os[k]? = some o →
        ∃ group ∈ op.groups, k ∈ group ∧
        (InputForm.ofText input).Denotes names (n.Shares w names group) o := by
  -- the groups of a part of the inputs share what is known of the part
  have hpart : ∀ inputs : List String, (∀ input ∈ inputs, input ∈ n.inputs) →
      (groupOperands n.dtype names (knownDType? w names inputs) inputs).Ensures w
      fun os w' => w' = w ∧
        List.Forall₂ (fun input o => (InputForm.ofText input).Denotes names (fun t => ∀ group,
          n.firstReference? group =
            inputs.findSome? (fun input => (InputForm.ofText input).reference?) →
            n.Shares w names group t) o) inputs os := by
    intro inputs hinputs
    exact ensures_groupOperands
      (fun t ht group hgroup => (shares_of_known hfound hinputs hgroup).1 t ht)
      (fun hnone t ht group hgroup => (shares_of_known hfound hinputs hgroup).2 hnone t ht) inputs
  refine Describe.Ensures.bind (Describe.ensures_get ?_)
  refine Describe.Ensures.bind ((hpart _ fun _ => List.mem_of_mem_take).mono ?_)
  rintro xs _ ⟨rfl, hxs⟩
  refine Describe.Ensures.bind ((hpart _ fun _ => List.mem_of_mem_drop).mono ?_)
  rintro ys _ ⟨rfl, hys⟩
  refine Describe.ensures_pure ⟨rfl, ?_, ?_⟩
  · rw [List.length_append, ← hxs.length_eq, ← hys.length_eq, ← List.length_append,
      List.take_append_drop]
  · intro k input o hinput ho
    have hk : k < n.inputs.length := (List.getElem?_eq_some_iff.1 hinput).1
    obtain ⟨group, hmem, hkgroup, hgroup⟩ := exists_group harity hk
    refine ⟨group, hmem, hkgroup, ?_⟩
    have hlength := hxs.length_eq
    rw [List.length_take] at hlength
    by_cases hlead : k < op.firstGroup
    · rw [if_pos hlead] at hgroup
      rw [List.getElem?_append_left (by omega)] at ho
      rw [← List.getElem?_take_of_lt hlead] at hinput
      exact (forall₂_getElem? hxs hinput ho).mono (fun _ _ h => h) fun t ht => ht group hgroup
    · rw [if_neg hlead] at hgroup
      rw [List.getElem?_append_right (by omega)] at ho
      have hinput' : (n.inputs.drop op.firstGroup)[k - xs.length]? = some input := by
        rw [List.getElem?_drop, ← hinput]
        congr 1
        omega
      exact (forall₂_getElem? hys hinput' ho).mono (fun _ _ h => h) fun t ht => ht group hgroup

/-! ## Definitions -/

theorem ensures_nodeOperand (op : OpKind) (o : Operand) :
    (nodeOperand op o).Ensures w fun r w' => w' = w ∧ o = .node r := by
  cases o with
  | node r => exact Describe.ensures_pure ⟨rfl, rfl⟩
  | scalar v => exact Describe.ensures_throw
  | symbol name d => exact Describe.ensures_throw

section Operator

variable {g : Nat} (hsize : g < w.graphs.size) {operands : List Operand}
  (hoperands : ∀ x ∈ operands.filterMap Operand.node?, x.graph = g ∧ w.Has x)

include hsize hoperands

/-- A call that is given the operands adds a node that reads them. -/
theorem ensures_call (b : BuilderCall) (hmakes : b.makes? = some (op, operands))
    (hfirst : b.checksFirst = true) (hleaf : b.graph? = none) :
    (Describe.ofBuild b.build).Ensures w fun r w' =>
      w.Appends r w' ∧ r.graph = g ∧ (w'.node r).op.kind = op ∧
      (w'.node r).operands = operands := by
  have hwithin : b.Within w g :=
    ⟨BuilderCall.mentions_of_makes? hmakes ▸ hoperands, by simp [hleaf]⟩
  refine ((BuilderCall.ensures_makes hwithin hsize hfirst).mono ?_).ofBuild
  rintro r w' ⟨happends, hr, hmade⟩
  obtain ⟨hkind, hsame⟩ := Prod.mk.inj (Option.some.inj (hmakes.symm.trans hmade))
  exact ⟨happends, hr, hkind.symm, hsame.symm⟩

/-- So does a call that is given the node of the first operand. -/
theorem ensures_call_nodeOperand {o : Operand} (b : NodeRef → BuilderCall)
    (hb : ∀ r, o = .node r → (b r).makes? = some (op, operands) ∧ (b r).checksFirst = true ∧
      (b r).graph? = none) :
    (do Describe.ofBuild (b (← nodeOperand op o)).build :
      Describe DefinitionError NodeRef).Ensures w fun r w' =>
      w.Appends r w' ∧ r.graph = g ∧ (w'.node r).op.kind = op ∧
      (w'.node r).operands = operands := by
  refine Describe.Ensures.bind ((ensures_nodeOperand op o).mono ?_)
  rintro r _ ⟨rfl, ho⟩
  obtain ⟨hmakes, hfirst, hleaf⟩ := hb r ho
  exact ensures_call hsize hoperands (b r) hmakes hfirst hleaf

/-- An operator that reads operands gives a node that reads them. -/
theorem ensures_buildOperator :
    (n.buildOperator op operands).Ensures w fun r w' =>
      w.Appends r w' ∧ r.graph = g ∧ (w'.node r).op.kind = op ∧
      (w'.node r).operands = operands := by
  fun_cases NodeDef.buildOperator n op operands with
  | case1 x =>
    refine Describe.Ensures.bind ((ensures_nodeOperand _ x).mono ?_)
    rintro r _ ⟨rfl, rfl⟩
    refine Describe.Ensures.bind (Describe.ensures_lift fun t _ => ?_)
    exact ensures_call hsize hoperands (.cast r t) rfl rfl rfl
  | case2 fn x =>
    refine ensures_call_nodeOperand hsize hoperands (.unary (.unary fn)) ?_
    rintro r rfl
    exact ⟨rfl, rfl, rfl⟩
  | case3 fn x y => exact ensures_call hsize hoperands (.binary (.binary fn) x y) rfl rfl rfl
  | case4 x =>
    refine ensures_call_nodeOperand hsize hoperands (.broadcast · n.axes) ?_
    rintro r rfl
    exact ⟨rfl, rfl, rfl⟩
  | case5 fn x =>
    refine ensures_call_nodeOperand hsize hoperands
      (.reduce (.reduce fn) · n.keepDims n.reduceAxes) ?_
    rintro r rfl
    exact ⟨rfl, rfl, rfl⟩
  | case6 x y =>
    refine Describe.Ensures.bind (Describe.ensures_lift fun mode _ => ?_)
    exact ensures_call hsize hoperands (.compare x y mode) rfl rfl rfl
  | case7 c x y =>
    refine ensures_call_nodeOperand hsize hoperands (.select · x y) ?_
    rintro r rfl
    exact ⟨rfl, rfl, rfl⟩
  | case8 x y t f =>
    refine Describe.Ensures.bind (Describe.ensures_lift fun mode _ => ?_)
    exact ensures_call hsize hoperands (.cmpSel x y mode t f) rfl rfl rfl
  | case9 => exact Describe.ensures_throw

end Operator

/-- A node that was added gets its name. -/
theorem ensures_withName {r : NodeRef} {w' : Workspace} (h : w.Appends r w') (label : String) :
    Describe.Ensures (Build.withName r label) w' fun r' w'' =>
      r' = r ∧ w.Appends r w'' ∧ w''.node r = { w'.node r with label } := by
  have hends : (Build.withName r label).Ends w' (fun r' w'' =>
      r' = r ∧ w.Appends r w'' ∧ w''.node r = { w'.node r with label }) fun _ => True := by
    simp only [Build.withName, Build.ends_bind, Build.ends_modify, Build.ends_pure]
    refine ⟨trivial, h.modifyNode _, ?_⟩
    rw [Workspace.withName, Workspace.node_modifyNode h.has, if_pos rfl]
  exact hends.ensures

/-- What a definition without inputs asks of its node. -/
theorem realized_leaf {node : Node} (hlabel : node.label = n.name)
    (hop : OpKind.parse n.op = .ok node.op.kind) (hinputs : n.inputs = [])
    (hoperands : node.operands = []) : n.Realized w names node where
  label := hlabel
  op := hop
  length := by rw [hinputs, hoperands]; rfl
  operands k input o hinput := by simp [hinputs] at hinput

section Leaves

variable {g : Nat} (hsize : g < w.graphs.size)
include hsize

theorem ends_placeholder_realized (hop : OpKind.parse n.op = .ok .placeholder)
    (hinputs : n.inputs = []) (d : DType) (axes : List Axis) :
    (Build.placeholder g n.name d axes).Ends w
      (fun r w' => w.Appends r w' ∧ r.graph = g ∧ n.Realized w names (w'.node r))
      fun _ => True := by
  refine ((Build.ends_placeholder_appends hsize n.name d axes).and
    (Build.ends_placeholder_accepted g n.name d axes)).mono ?_ fun _ _ => trivial
  rintro r w' ⟨⟨happends, hnode⟩, rfl, -⟩
  refine ⟨happends, rfl, ?_⟩
  rw [hnode]
  exact realized_leaf rfl hop hinputs rfl

theorem ends_placeholderWithPadding_realized (hop : OpKind.parse n.op = .ok .placeholder)
    (hinputs : n.inputs = []) (padding : Option PaddingValue) (d : DType) (axes : List Axis) :
    (Build.placeholderWithPadding g n.name padding d axes).Ends w
      (fun r w' => w.Appends r w' ∧ r.graph = g ∧ n.Realized w names (w'.node r))
      fun _ => True := by
  have hplaceholder : (Build.placeholder g n.name d axes).Ends w
      (fun r w' => w.Appends r w' ∧ r.graph = g ∧ n.Realized w names (w'.node r)) fun _ => True :=
    ends_placeholder_realized hsize hop hinputs d axes
  refine Build.ends_placeholderWithPadding_of (hplaceholder.mono ?_ fun _ h => h)
  rintro r w' ⟨happends, hr, hrealized⟩
  refine ⟨fun _ => trivial, fun p _ _ => ⟨happends.modifyNode _, hr, ?_⟩⟩
  rw [Workspace.node_modifyNode happends.has, if_pos rfl]
  have hoperands : (w'.node r).operands = [] :=
    List.eq_nil_of_length_eq_zero (hrealized.length.trans (by rw [hinputs]; rfl))
  exact realized_leaf hrealized.label hop hinputs hoperands

theorem ensures_constant_realized (hop : OpKind.parse n.op = .ok .constant)
    (hinputs : n.inputs = []) (v : Scalar) (axes : List Axis) :
    Describe.Ensures (do Build.withName (← Build.constant g v axes) n.name : Build NodeRef) w
      fun r w' =>
      w.Appends r w' ∧ r.graph = g ∧ n.Realized w names (w'.node r) := by
  have hwithin : (BuilderCall.constant g v axes).Within w g :=
    ⟨by simp [BuilderCall.mentions], by simp [BuilderCall.graph?]⟩
  refine Describe.Ensures.bind ((BuilderCall.ensures_makes hwithin hsize rfl).mono ?_)
  rintro r w' ⟨happends, hr, hmakes⟩
  obtain ⟨hkind, hoperands⟩ := Prod.mk.inj (Option.some.inj hmakes)
  refine (ensures_withName happends n.name).mono ?_
  rintro _ w'' ⟨rfl, happends', hnode⟩
  refine ⟨happends', hr, ?_⟩
  rw [hnode]
  exact realized_leaf rfl (hop.trans (congrArg _ hkind)) hinputs hoperands.symm

end Leaves

/-- **Building a definition** adds a node that realizes it, if all that it refers to is built. -/
theorem ensures_realized {g : Nat} (hsize : g < w.graphs.size)
    (hnamed : ∀ name r, names.find? name = some r → r.graph = g ∧ w.Has r)
    (hfound : ∀ x ∈ n.references, ∃ r, names.find? x = some r) :
    (n.build g names).Ensures w fun r w' => w.Appends r w' ∧ r.graph = g ∧
      n.Realized w names (w'.node r) := by
  refine Describe.Ensures.bind (Describe.ensures_lift fun op hop => ?_)
  dsimp only
  split
  · exact Describe.Ensures.bind Describe.ensures_throw
  · rename_i harity
    have harity : op.arity? = some n.inputs.length := Decidable.not_not.1 harity
    split
    · have hinputs : n.inputs = [] := List.eq_nil_of_length_eq_zero (Option.some.inj harity).symm
      refine Describe.Ensures.bind (Describe.ensures_lift fun t _ => ?_)
      split
      · exact (ends_placeholder_realized hsize hop hinputs t n.axes).ensures.ofBuild
      · refine Describe.Ensures.bind (Describe.ensures_lift fun p _ => ?_)
        exact (ends_placeholderWithPadding_realized hsize hop hinputs
          (some p) t n.axes).ensures.ofBuild
    · have hinputs : n.inputs = [] := List.eq_nil_of_length_eq_zero (Option.some.inj harity).symm
      refine Describe.Ensures.bind (Describe.ensures_lift fun t _ => ?_)
      refine Describe.Ensures.bind (Describe.ensures_lift fun v _ => ?_)
      exact (ensures_constant_realized hsize hop hinputs v n.axes).ofBuild
    · refine Describe.Ensures.bind ((ensures_operands harity hfound).mono ?_)
      rintro operands w ⟨rfl, hlength, hdenotes⟩
      have hnodes : ∀ x ∈ operands.filterMap Operand.node?, x.graph = g ∧ w.Has x := by
        intro x hx
        obtain ⟨k, hk, hxk⟩ := List.getElem_of_mem (Operand.mem_filterMap_node?.1 hx)
        have ho : operands[k]? = some (.node x) := by rw [List.getElem?_eq_getElem hk, hxk]
        obtain ⟨_, -, -, hnode⟩ := hdenotes k _ _ (List.getElem?_eq_getElem (hlength ▸ hk)) ho
        obtain ⟨name, -, hname⟩ := hnode.reference
        exact hnamed name x hname
      refine Describe.Ensures.bind ((ensures_buildOperator hsize hnodes).mono ?_)
      rintro r w' ⟨happends, hr, rfl, rfl⟩
      refine ((ensures_withName happends n.name).mono ?_).ofBuild
      rintro _ w'' ⟨rfl, happends', hnode⟩
      refine ⟨happends', hr, ?_⟩
      rw [hnode]
      exact ⟨rfl, hop, hlength, hdenotes⟩

end NodeDef

/-! ## Descriptions -/

theorem NodeNames.find?_cons_self {name : String} {r : NodeRef} {names : NodeNames} :
    NodeNames.find? ((name, r) :: names) name = some r := by
  rw [NodeNames.find?, List.lookup_cons_self]

theorem NodeNames.find?_cons_of_ne {name other : String} {r : NodeRef} {names : NodeNames}
    (hne : name ≠ other) :
    NodeNames.find? ((other, r) :: names) name = names.find? name := by
  rw [NodeNames.find?, List.lookup_cons, beq_false_of_ne hne]
  rfl

theorem getElem?_snoc {α : Type} {l : List α} {x y : α} {j : Nat} :
    (l ++ [x])[j]? = some y ↔ l[j]? = some y ∨ j = l.length ∧ x = y := by
  grind

namespace Workspace

theorem Appends.node_eq {w w' : Workspace} {r x : NodeRef} (h : w.Appends r w') (hx : w.Has x) :
    w'.node x = w.node x := by
  by_cases hgraph : x.graph = r.graph
  · have hlt : x.index < (w.graph r.graph).nodes.size := hgraph ▸ hx
    rw [node, node, Graph.node, Graph.node, hgraph, h.nodes, Array.getD_eq_getD_getElem?,
      Array.getD_eq_getD_getElem?, Array.getElem?_push_lt hlt, Array.getElem?_eq_getElem hlt]
  · rw [node, node, h.others _ hgraph]

/-- The nodes of the graph `g` realize definitions, one each, in their order and under their names,
and every definition comes after those that it refers to. -/
structure Realizes (w : Workspace) (g : Nat) (names : NodeNames) (defs : List NodeDef) : Prop where
  size : g < w.graphs.size
  count : (w.graph g).nodes.size = defs.length
  find : ∀ (j : Nat) (n : NodeDef), defs[j]? = some n → names.find? n.name = some ⟨g, j⟩
  found : ∀ (name : String) (r : NodeRef), names.find? name = some r →
    ∃ (j : Nat) (n : NodeDef), defs[j]? = some n ∧ n.name = name ∧ r = ⟨g, j⟩
  realized : ∀ (j : Nat) (n : NodeDef), defs[j]? = some n → n.Realized w names (w.node ⟨g, j⟩)
  earlier : ∀ (j : Nat) (n : NodeDef), defs[j]? = some n → ∀ x ∈ n.references,
    ∃ j' < j, names.find? x = some ⟨g, j'⟩

namespace Realizes

variable {w w' : Workspace} {g : Nat} {names : NodeNames} {defs : List NodeDef} {n : NodeDef}

theorem has_iff (h : w.Realizes g names defs) {j : Nat} : w.Has ⟨g, j⟩ ↔ j < defs.length := by
  rw [Has, h.count]

theorem has_of_find (h : w.Realizes g names defs) {name : String} {r : NodeRef}
    (hr : names.find? name = some r) :
    r.graph = g ∧ w.Has r := by
  obtain ⟨j, n, hj, -, rfl⟩ := h.found name r hr
  exact ⟨rfl, h.has_iff.2 (List.getElem?_eq_some_iff.1 hj).1⟩

/-- Nothing is realized by a new graph. -/
theorem of_addGraph (w : Workspace) (name : String) :
    (w.addGraph name).Realizes w.graphs.size [] [] where
  size := by simp [addGraph]
  count := by simp [addGraph, graph]
  find j n hj := by simp at hj
  found name r hr := by simp [NodeNames.find?] at hr
  realized j n hj := by simp at hj
  earlier j n hj := by simp at hj

/-- **One more definition is realized** by a node that is added for it. -/
theorem snoc (h : w.Realizes g names defs) {r : NodeRef} (happends : w.Appends r w')
    (hr : r.graph = g) (hn : n.Realized w names (w'.node r)) (hnew : ∀ m ∈ defs, m.name ≠ n.name)
    (hrefs : ∀ x ∈ n.references, ∃ m ∈ defs, m.name = x) :
    w'.Realizes g ((n.name, r) :: names) (defs ++ [n]) := by
  obtain rfl : r = ⟨g, defs.length⟩ := by
    rw [← h.count, ← hr, ← happends.index]
  have hkeep : ∀ name r, names.find? name = some r →
      NodeNames.find? ((n.name, ⟨g, defs.length⟩) :: names) name = some r := by
    intro name r hr
    obtain ⟨j, m, hj, rfl, -⟩ := h.found name r hr
    rwa [NodeNames.find?_cons_of_ne (hnew m (List.mem_of_getElem? hj))]
  have hsame : ∀ name r, names.find? name = some r → w'.node r = w.node r :=
    fun name r hr => happends.node_eq (h.has_of_find hr).2
  constructor
  case size => exact lt_size_of_has happends.has
  case count =>
    rw [happends.nodes, Array.size_push, h.count, List.length_append]
    rfl
  case find =>
    intro j m hj
    rcases getElem?_snoc.1 hj with hold | ⟨rfl, rfl⟩
    · exact hkeep _ _ (h.find j m hold)
    · exact NodeNames.find?_cons_self
  case found =>
    intro name r hr
    by_cases hname : name = n.name
    · subst hname
      have hlast := Option.some.inj (hr.symm.trans NodeNames.find?_cons_self)
      exact ⟨defs.length, n, getElem?_snoc.2 (.inr ⟨rfl, rfl⟩), rfl, hlast⟩
    · rw [NodeNames.find?_cons_of_ne hname] at hr
      obtain ⟨j, m, hj, hrest⟩ := h.found name r hr
      exact ⟨j, m, getElem?_snoc.2 (.inl hj), hrest⟩
  case realized =>
    intro j m hj
    rcases getElem?_snoc.1 hj with hold | ⟨rfl, rfl⟩
    · rw [happends.node_eq (h.has_iff.2 (List.getElem?_eq_some_iff.1 hold).1)]
      exact (h.realized j m hold).mono hkeep hsame
    · exact hn.mono hkeep hsame
  case earlier =>
    intro j m hj x hx
    rcases getElem?_snoc.1 hj with hold | ⟨rfl, rfl⟩
    · obtain ⟨j', hlt, hfind⟩ := h.earlier j m hold x hx
      exact ⟨j', hlt, hkeep _ _ hfind⟩
    · obtain ⟨m', hm', rfl⟩ := hrefs x hx
      obtain ⟨j', hlt, rfl⟩ := List.getElem_of_mem hm'
      exact ⟨j', hlt, hkeep _ _ (h.find j' _ (List.getElem?_eq_getElem hlt))⟩

/-- **Definitions that are built one after the other are realized**, if no two have the same name
and each comes after those that it refers to. -/
theorem ensures_buildFrom (h : w.Realizes g names defs) (count i : Nat) (rest : List NodeDef)
    (hdistinct : ((defs ++ rest).map NodeDef.name).Nodup)
    (hrefs : ∀ before n after, defs ++ rest = before ++ n :: after →
      ∀ x ∈ n.references, ∃ m ∈ before, m.name = x) :
    (Description.buildFrom g count i names rest).Ensures w fun names' w' => w'.Realizes g names'
      (defs ++ rest) := by
  induction rest generalizing w i names defs with
  | nil =>
    rw [List.append_nil]
    exact Describe.ensures_pure h
  | cons n rest ih =>
    have hknown := hrefs defs n rest rfl
    have hfound : ∀ x ∈ n.references, ∃ r, names.find? x = some r := by
      intro x hx
      obtain ⟨m, hm, rfl⟩ := hknown x hx
      obtain ⟨j, hj, rfl⟩ := List.getElem_of_mem hm
      exact ⟨_, h.find j _ (List.getElem?_eq_getElem hj)⟩
    have hnew : ∀ m ∈ defs, m.name ≠ n.name := by
      intro m hm
      rw [List.map_append, List.nodup_append] at hdistinct
      exact hdistinct.2.2 _ (List.mem_map_of_mem hm) _ (by simp)
    refine Describe.Ensures.bind
      (((NodeDef.ensures_realized h.size (fun _ _ => h.has_of_find) hfound).adapt _).mono ?_)
    rintro r w' ⟨happends, hr, hrealized⟩
    rw [List.append_cons] at hdistinct hrefs ⊢
    exact ih (h.snoc happends hr hrealized hnew hknown) (i + 1) hdistinct hrefs

end Realizes
end Workspace

namespace Description

variable {d : Description} {w w' : Workspace} {m : Model}

/-- The definitions in an order of their positions. -/
def arranged (d : Description) (order : List Nat) :
    List NodeDef := order.map fun i => d.nodes.getD i .blank

theorem arranged_range (d : Description) : d.arranged (List.range d.nodes.length) = d.nodes := by
  refine List.ext_getElem (by simp [arranged]) fun i hi hi' => ?_
  simp [arranged, hi']

/-- An order that is found has every definition, after those that it refers to. -/
theorem arranged_of_order {order : List Nat} (h : d.order = .ok order) :
    (d.arranged order).Perm d.nodes ∧ ∀ before n after, d.arranged order = before ++ n :: after →
      ∀ x ∈ n.references, ∃ m ∈ before, m.name = x := by
  have hd := resolves_of_order h
  have harranges := arranges_of_order h
  constructor
  · have hperm := harranges.perm.map fun i => d.nodes.getD i .blank
    rw [List.append_nil] at hperm
    exact hperm.trans (.of_eq d.arranged_range)
  · intro before n after hsplit x hx
    obtain ⟨positions, rest, horder, rfl, hrest⟩ := List.map_eq_append_iff.1 hsplit
    obtain ⟨i, after', rfl, rfl, -⟩ := List.map_eq_cons_iff.1 hrest
    obtain ⟨k, hread, rfl⟩ := hd.exists_reads hx
    exact ⟨_, List.mem_map_of_mem (harranges.mem_before horder hread), rfl⟩

/-- **A graph that is built realizes its description**, and its outputs are the nodes with their
names. -/
theorem ensures_realizes :
    d.build.Ensures w fun m w' => ∃ order, d.order = .ok order ∧ m.graph = w.graphs.size ∧
    w'.Realizes m.graph m.names (d.arranged order) ∧ findAll m.names d.outputNames =
      .ok m.outputs := by
  refine Describe.Ensures.bind (Describe.ensures_lift fun order horder => ?_)
  obtain ⟨hperm, hrefs⟩ := arranged_of_order horder
  have hdistinct : ((d.arranged order).map NodeDef.name).Nodup :=
    (hperm.map NodeDef.name).nodup_iff.2 (resolves_of_order horder).distinct
  refine Describe.Ensures.bind (Describe.ensures_get ?_)
  refine Describe.Ensures.bind (Describe.ensures_modify ?_)
  refine Describe.Ensures.bind
    (((Workspace.Realizes.of_addGraph w d.name).ensures_buildFrom _ _ _ hdistinct hrefs).mono ?_)
  intro names w' hw'
  refine Describe.Ensures.bind (Describe.ensures_lift fun outputs houtputs => ?_)
  exact Describe.ensures_pure ⟨order, horder, rfl, hw', houtputs⟩

/-- **A graph that is built has one node for each definition, in the order of the definitions.**
The node has the name of its definition, the operator that is named, and for each input the node of
the definition that it refers to, the symbol, or the scalar that it stands for.  What a definition
refers to is built before it. -/
theorem realized_of_build (h : (ExceptT.run d.build).run w = (.ok m, w')) :
    ∃ order, d.order = .ok order ∧ order.Perm (List.range d.nodes.length) ∧
      m.graph = w.graphs.size ∧ (w'.graph m.graph).nodes.size = d.nodes.length ∧
      ∀ j i, order[j]? = some i →
        m.names.find? (d.nodes.getD i .blank).name = some ⟨m.graph, j⟩ ∧
        (d.nodes.getD i .blank).Realized w' m.names (w'.node ⟨m.graph, j⟩) ∧
        ∀ x ∈ (d.nodes.getD i .blank).references, ∃ j' < j, ∃ k, order[j']? = some k ∧
          (d.nodes.getD k .blank).name = x ∧ m.names.find? x = some ⟨m.graph, j'⟩ := by
  obtain ⟨order, horder, hgraph, hrealizes, -⟩ := ensures_realizes m w' h
  have hperm := (arranges_of_order horder).perm
  rw [List.append_nil] at hperm
  refine ⟨order, horder, hperm, hgraph, ?_, fun j i hj => ?_⟩
  · rw [hrealizes.count, arranged, List.length_map, hperm.length_eq, List.length_range]
  · have hdef : (d.arranged order)[j]? = some (d.nodes.getD i .blank) := by
      rw [arranged, List.getElem?_map, hj]
      rfl
    refine ⟨hrealizes.find j _ hdef, hrealizes.realized j _ hdef, fun x hx => ?_⟩
    obtain ⟨j', hlt, hfind⟩ := hrealizes.earlier j _ hdef x hx
    obtain ⟨_, n, hn, hname, hsame⟩ := hrealizes.found x _ hfind
    obtain rfl := (NodeRef.mk.inj hsame).2
    rw [arranged, List.getElem?_map] at hn
    obtain ⟨k, hk, rfl⟩ := Option.map_eq_some_iff.1 hn
    exact ⟨j', hlt, k, hk, hname, hfind⟩

/-- A selection between a literal and a symbol, which have the element type of their definition, by
a comparison whose symbol has that of the node beside it. -/
def clipped : Description where
  name := "clipped"
  nodes := [
    { NodeDef.blank with
      name := "y", op := "select", dtype := "Float16", inputs := ["c", "=1", "$high"] },
    { NodeDef.blank with name := "c", op := "Compare", inputs := ["$low", "x"], mode := "<" },
    { NodeDef.blank with name := "x", op := "Placeholder", dtype := "F32", axes := [⟨16, 15⟩] }]
  outputs := []

theorem exists_build_clipped :
    ∃ m w', (ExceptT.run clipped.build).run .empty = (.ok m, w') ∧ m.graph = 0 ∧
      (w'.node ⟨0, 1⟩).operands = [.symbol "low" .float32, .node ⟨0, 0⟩] ∧
    (w'.node ⟨0, 2⟩).operands =
      [.node ⟨0, 1⟩, .scalar ⟨.float16, .one⟩, .symbol "high" .float16] := by
  have hbuilt : ∃ m, ((ExceptT.run clipped.build).run .empty).1 = .ok m ∧
      m.graph = 0 :=
    exists_ok_of_test (by decide +kernel)
  obtain ⟨m, hm, hgraph⟩ := hbuilt
  exact ⟨m, _, Prod.ext hm rfl, hgraph, by decide +kernel, by decide +kernel⟩

/-- The definitions are built from the last one to the first one. -/
theorem realized_clipped :
    ∃ m w', (ExceptT.run clipped.build).run .empty = (.ok m, w') ∧ clipped.order = .ok [2, 1, 0] ∧
      (w'.graph 0).nodes.size = 3 ∧ m.names.find? "y" = some ⟨0, 2⟩ ∧
      m.names.find? "c" = some ⟨0, 1⟩ ∧
      (clipped.nodes.getD 0 .blank).Realized w' m.names (w'.node ⟨0, 2⟩) ∧
      (w'.node ⟨0, 1⟩).operands = [.symbol "low" .float32, .node ⟨0, 0⟩] ∧
      (w'.node ⟨0, 2⟩).operands =
        [.node ⟨0, 1⟩, .scalar ⟨.float16, .one⟩, .symbol "high" .float16] := by
  obtain ⟨m, w', hm, hgraph, hc, hy⟩ := exists_build_clipped
  obtain ⟨order, horder, -, -, hsize, hnodes⟩ := realized_of_build hm
  have hsorted : clipped.order = .ok [2, 1, 0] := by decide +kernel
  obtain rfl : order = [2, 1, 0] := Except.ok.inj (horder.symm.trans hsorted)
  rw [hgraph] at hsize hnodes
  obtain ⟨hfind, hrealized, -⟩ := hnodes 2 0 rfl
  exact ⟨m, w', hm, hsorted, hsize, hfind, (hnodes 1 1 rfl).1, hrealized, hc, hy⟩

end Description
end LanePadding
