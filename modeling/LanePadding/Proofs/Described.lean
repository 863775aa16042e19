import LanePadding.Description.Build
import LanePadding.Proofs.GraphInvariant
import LanePadding.Proofs.History
import LanePadding.Proofs.Progress
import LanePadding.Proofs.Transfer

/-!
# Every graph can be analysed

Building a graph is the only thing that can go wrong.  The main result is
`Engine.analyses_of_built`: whatever is made with the builders can be analysed, and so can every
graph that a description gives.

For the graphs of the first part nothing is left to do after `Engine.Complete.analyses`.  A
description is more work, since nobody hands its graph over as an admissible one.  Building it has
to be followed through all definitions: every call that is made fits the graph
(`BuilderCall.FitsIn`), and such calls leave it admissible (`BuilderCall.ends_extends`).  And there
must be outputs.  If a description lists none, its outputs are the nodes that no other one reads,
and there is such a node because definitions can be put in order: the last one is read by nobody
(`Description.exists_unread`).

## What is here

* `Workspace.Extends` — what a call leaves of a workspace when it adds a node to a graph.
* `Describe.Ensures` — what holds if building from definitions succeeds.
* `InputForm.Denotes` — the operand that an input stands for.
* `Workspace.Hosts` — the invariant: the graph is admissible and holds all nodes built for names.
-/

set_option autoImplicit false

namespace LanePadding

/-! ## Calls that fit a graph -/

/-- The operand can be read in the graph `g`: it is a node of the graph, or has a supported element
type. -/
def Operand.FitsIn (w : Workspace) (g : Nat) : Operand → Prop
  | .node x => x.graph = g ∧ w.Has x
  | .scalar v => v.dtype.isSupported = true
  | .symbol _ d => d.isSupported = true

/-- The call is about the graph `g`, all its operands can be read there, and what it declares is of
a known kind. -/
def BuilderCall.FitsIn (w : Workspace) (g : Nat) : BuilderCall → Prop
  | .placeholder g' _ _ _ | .constant g' _ _ => g' = g
  | .placeholderWithPadding g' _ p _ _ => g' = g ∧ ∀ q ∈ p, q.content.isKnown = true
  | .unary _ x | .cast x _ | .broadcast x _ | .reduce _ x _ _ | .withName x _ =>
    x.graph = g ∧ w.Has x
  | .binary _ lhs rhs | .compare lhs rhs _ => ∀ o ∈ [lhs, rhs], o.FitsIn w g
  | .select cond t f => ∀ o ∈ [.node cond, t, f], o.FitsIn w g
  | .cmpSel lhs rhs _ t f => ∀ o ∈ [lhs, rhs, t, f], o.FitsIn w g

theorem Operand.has_of_fitsIn {w : Workspace} {g : Nat} {operands : List Operand}
    (h : ∀ o ∈ operands, o.FitsIn w g) {x : NodeRef} (hx : x ∈ operands.filterMap Operand.node?) :
    x.graph = g ∧ w.Has x := by
  obtain ⟨o, ho, hox⟩ := List.mem_filterMap.1 hx
  cases o with
  | node y =>
    obtain rfl := Option.some.inj hox
    exact h _ ho
  | scalar v => simp [Operand.node?] at hox
  | symbol name d => simp [Operand.node?] at hox

theorem BuilderCall.FitsIn.has {w : Workspace} {g : Nat} {b : BuilderCall} (h : b.FitsIn w g) :
    ∀ x ∈ b.mentions, w.Has x := by
  cases b with
  | placeholder _ _ _ _ | placeholderWithPadding _ _ _ _ _ | constant _ _ _ => simp [mentions]
  | unary _ x | cast x _ | broadcast x _ | reduce _ x _ _ | withName x _ =>
    simpa [mentions] using h.2
  | binary _ _ _ | compare _ _ _ | select _ _ _ | cmpSel _ _ _ _ _ =>
    exact fun x hx => (Operand.has_of_fitsIn h hx).2

namespace Workspace

/-- The node `r` of the graph `g` is there, all nodes of `w` are still there, and the graph is
admissible if it was. -/
structure Extends (w : Workspace) (g : Nat) (r : NodeRef) (w' : Workspace) : Prop where
  size : w'.graphs.size = w.graphs.size
  keeps : ∀ x, w.Has x → w'.Has x
  graph : r.graph = g
  has : w'.Has r
  admissible : w.Admissible g → w'.Admissible g

theorem admissible_iff {w : Workspace} {g : Nat} :
    w.Admissible g ↔ ∀ x, x.graph = g → w.Has x →
      (w.node x).op.declaresKnown = true ∧ ∀ o ∈ (w.node x).operands, o.isSupported = true := by
  simp only [Admissible, mem_allNodes, and_imp]

variable {w w' : Workspace} {g : Nat} {r : NodeRef}

/-- Changing a node, but not its operands, leaves a graph admissible if what is declared is of a
known kind. -/
theorem Extends.modifyNode (h : w.Extends g r w') (x : NodeRef) {f : Node → Node}
    (hoperands : ∀ n, (f n).operands = n.operands)
    (hop : ∀ n, n.op.declaresKnown = true → (f n).op.declaresKnown = true) :
    w.Extends g r (w'.modifyNode x f) where
  size := by
    rw [Workspace.modifyNode, Array.size_modify]
    exact h.size
  keeps y hy := has_modifyNode.2 (h.keeps y hy)
  graph := h.graph
  has := has_modifyNode.2 h.has
  admissible hw := by
    have hw' := admissible_iff.1 (h.admissible hw)
    refine admissible_iff.2 fun y hy hhas => ?_
    rw [has_modifyNode] at hhas
    rw [node_modifyNode hhas]
    obtain ⟨hknown, hsupported⟩ := hw' y hy hhas
    split
    · exact ⟨hop _ hknown, by rwa [hoperands]⟩
    · exact ⟨hknown, hsupported⟩

/-- The graph that a node is added to is the one that is given, or that of the operands. -/
theorem eq_of_owner {op : OpKind} {g? : Option Nat} {xs : List NodeRef} {o : Nat}
    (h : owner op g? xs = .ok o) (hg : ∀ g₀ ∈ g?, g₀ = g) (hxs : ∀ x ∈ xs, x.graph = g) :
    o = g := by
  obtain ⟨hgraph, hgiven⟩ := forall_graph_eq_of_owner h
  cases g? with
  | some g₀ => exact (hgiven g₀ rfl).symm.trans (hg g₀ rfl)
  | none =>
    cases xs with
    | nil => simp [owner] at h
    | cons x xs => exact (hgraph x (by simp)).symm.trans (hxs x (by simp))

/-- A graph is extended by a node whose operands can be read there. -/
theorem extends_push (hsize : g < w.graphs.size) {n : Node} (hn : n.op.declaresKnown = true)
    (hoperands : ∀ o ∈ n.operands, o.FitsIn w g) :
    w.Extends g ⟨g, (w.graph g).nodes.size⟩ (w.push g n) where
  size := by
    rw [push, Array.size_modify]
  keeps x hx := by
    rw [Has, graph_push]
    split
    · rename_i heq
      obtain ⟨rfl, -⟩ := heq
      rw [Array.size_push]
      exact Nat.lt_succ_of_lt hx
    · exact hx
  graph := rfl
  has := by
    rw [Has, graph_push, if_pos ⟨rfl, hsize⟩, Array.size_push]
    exact Nat.lt_succ_self _
  admissible hw := by
    refine admissible_iff.2 fun x hx hhas => ?_
    rcases has_push hhas with hold | ⟨-, hnew⟩
    · rw [node_push hold]
      exact admissible_iff.1 hw x hx hold
    · rw [hnew]
      refine ⟨hn, fun o ho => ?_⟩
      cases o with
      | node y => rfl
      | scalar v => exact hoperands _ ho
      | symbol name d => exact hoperands _ ho

end Workspace

namespace Build

variable {w : Workspace} {g : Nat}

theorem ends_add_extends (hsize : g < w.graphs.size) {g? : Option Nat}
    (hg : ∀ g₀ ∈ g?, g₀ = g) {op : Op} (hop : op.declaresKnown = true) {d : DType}
    {axes : List Axis} {operands : List Operand} (hoperands : ∀ o ∈ operands, o.FitsIn w g) :
    (add g? op d axes operands).Ends w (fun r w' => w.Extends g r w') fun _ => True := by
  simp only [add, ends_bind, ends_get, ends_lift]
  split
  · rename_i o ho
    obtain rfl := Workspace.eq_of_owner ho hg fun x hx => (Operand.has_of_fitsIn hoperands hx).1
    split
    · trivial
    · simp only [ends_bind, ends_set, ends_pure]
      exact Workspace.extends_push hsize hop hoperands
  · trivial

theorem ends_placeholder_extends (hsize : g < w.graphs.size) (name : String) (d : DType)
    (axes : List Axis) :
    (placeholder g name d axes).Ends w (fun r w' => w.Extends g r w') fun _ => True := by
  simp only [placeholder, withName, ends_bind]
  refine ends_checkDType (fun _ => ?_) trivial
  refine (ends_add_extends hsize (by simp) rfl (by simp)).mono (fun r w' h => ?_) fun _ h => h
  simp only [ends_modify, ends_pure]
  exact h.modifyNode r (fun _ => rfl) fun _ h => h

theorem ends_placeholderWithPadding_extends (hsize : g < w.graphs.size) (name : String)
    {padding : Option PaddingValue} (hpadding : ∀ p ∈ padding, p.content.isKnown = true) (d : DType)
    (axes : List Axis) :
    (placeholderWithPadding g name padding d axes).Ends w (fun r w' => w.Extends g r w')
      fun _ => True := by
  refine ends_placeholderWithPadding_of
    ((ends_placeholder_extends hsize name d axes).mono (fun r w' h => ?_) fun _ h => h)
  exact ⟨fun _ => trivial, fun p hp _ => h.modifyNode r (fun _ => rfl) fun _ _ => hpadding p hp⟩

end Build

theorem Op.declaresKnown_of_kind {op : Op} (h : op.kind ≠ .placeholder) :
    op.declaresKnown = true := by
  cases op with
  | placeholder declared => exact absurd rfl h
  | _ => rfl

namespace BuilderCall

variable {w : Workspace} {g : Nat} {b : BuilderCall}

theorem FitsIn.graph (h : b.FitsIn w g) : ∀ g₀ ∈ b.graph?, g₀ = g := by
  cases b with
  | placeholder g' _ _ _ | constant g' _ _ =>
    obtain rfl : g' = g := h
    simp [graph?]
  | placeholderWithPadding g' _ _ _ _ =>
    obtain ⟨rfl, -⟩ := h
    simp [graph?]
  | _ => simp [graph?]

/-- The node that the call adds reads what can be read in the graph. -/
theorem FitsIn.operands (h : b.FitsIn w g) {kind : OpKind} {operands : List Operand}
    (hmakes : b.makes? = some (kind, operands)) : ∀ o ∈ operands, o.FitsIn w g := by
  cases b with
  | withName _ _ => exact absurd hmakes (by simp [makes?])
  | placeholder _ _ _ _ | placeholderWithPadding _ _ _ _ _ | constant _ _ _ =>
    obtain ⟨-, rfl⟩ := Prod.mk.inj (Option.some.inj hmakes)
    simp
  | unary _ x | cast x _ | broadcast x _ | reduce _ x _ _ =>
    obtain ⟨-, rfl⟩ := Prod.mk.inj (Option.some.inj hmakes)
    intro o ho
    obtain rfl := List.mem_singleton.1 ho
    exact h
  | binary _ _ _ | compare _ _ _ | select _ _ _ | cmpSel _ _ _ _ _ =>
    obtain ⟨-, rfl⟩ := Prod.mk.inj (Option.some.inj hmakes)
    exact h

/-- **A call that fits a graph extends it**, unless it fails. -/
theorem ends_extends (hsize : g < w.graphs.size) (hb : b.FitsIn w g) :
    b.build.Ends w (fun r w' => w.Extends g r w') fun _ => True := by
  have hchecked (hfirst : b.checksFirst = true) : b.build.Ends w (fun r w' => w.Extends g r w')
      fun _ => True :=
    ends_of_add hfirst trivial fun _ _ _ _ hmakes hkind _ =>
      Build.ends_add_extends hsize hb.graph (Op.declaresKnown_of_kind hkind) (hb.operands hmakes)
  cases b with
  | placeholder g' name d axes =>
    obtain rfl : g' = g := hb
    exact Build.ends_placeholder_extends hsize name d axes
  | placeholderWithPadding g' name p d axes =>
    obtain ⟨rfl, hp⟩ := hb
    exact Build.ends_placeholderWithPadding_extends hsize name hp d axes
  | withName x label =>
    have hself : w.Extends g x w := ⟨rfl, fun _ h => h, hb.1, hb.2, fun h => h⟩
    exact hself.modifyNode x (fun _ => rfl) fun _ h => h
  | _ => exact hchecked rfl

end BuilderCall

/-! ## Building from definitions -/

theorem isSupported_of_parseDType {text : String} {d : DType} (h : parseDType text = .ok d) :
    d.isSupported = true := by
  rw [parseDType] at h
  split at h
  · rename_i d' hd
    obtain rfl := Except.ok.inj h
    exact (Option.filter_eq_some_iff.1 hd).2
  · exact absurd h (by simp)

theorem parseScalar_eq_ok {d : DType} {text : String} {v : Scalar}
    (h : parseScalar d text = .ok v) :
    ∃ x, d.parseLiteral text = .ok x ∧ Scalar.ofDouble d x = .ok v := by
  rw [parseScalar] at h
  cases hliteral : d.parseLiteral text with
  | error e => simp [hliteral, bind, Except.bind] at h
  | ok x =>
    rw [hliteral] at h
    exact ⟨x, rfl, h⟩

theorem isKnown_of_parsePadding {d : DType} {text : String} {p : PaddingValue}
    (h : parsePadding d text = .ok p) : p.content.isKnown = true := by
  unfold parsePadding at h
  split at h
  any_goals
    obtain rfl := Except.ok.inj h
    rfl
  cases hscalar : parseScalar d text with
  | error e => simp [hscalar, bind, Except.bind] at h
  | ok v =>
    rw [hscalar] at h
    obtain rfl := Except.ok.inj h
    rfl

namespace Describe

section Ensures

variable {ε δ α β : Type} {w : Workspace} {Q : α → Workspace → Prop}

/-- If the computation succeeds on the workspace `w`, then `Q` holds of its answer and of the
workspace after it. -/
def Ensures (m : Describe ε α) (w : Workspace) (Q : α → Workspace → Prop) : Prop :=
  ∀ a w', (ExceptT.run m).run w = (.ok a, w') → Q a w'

theorem Ensures.mono {m : Describe ε α} {Q' : α → Workspace → Prop} (h : m.Ensures w Q)
    (hQ : ∀ a w', Q a w' → Q' a w') : m.Ensures w Q' :=
  fun a w' hm => hQ a w' (h a w' hm)

theorem ensures_pure {a : α} (h : Q a w) : (pure a : Describe ε α).Ensures w Q := by
  intro b w' hb
  obtain ⟨hba, rfl⟩ := Prod.mk.inj hb
  obtain rfl := Except.ok.inj hba
  exact h

theorem ensures_throw {e : ε} : (throw e : Describe ε α).Ensures w Q := by
  intro b w' hb
  have hb' : (Except.error e, w) = ((Except.ok b, w') : Except ε α × Workspace) := hb
  simp at hb'

theorem Ensures.bind {m : Describe ε α} {f : α → Describe ε β} {R : β → Workspace → Prop}
    (h : m.Ensures w fun a w' => (f a).Ensures w' R) : (m >>= f).Ensures w R := by
  intro b w'' hb
  rw [ExceptT.run_bind, StateT.run_bind] at hb
  rcases hm : (ExceptT.run m).run w with ⟨e | a, w'⟩
  · rw [hm] at hb
    exact absurd (Prod.mk.inj hb).1 (by simp)
  · rw [hm] at hb
    exact h a w' hm b w'' hb

theorem ensures_get {Q : Workspace → Workspace → Prop} (h : Q w w) :
    (get : Describe ε Workspace).Ensures w Q := by
  intro b w' hb
  obtain ⟨hba, rfl⟩ := Prod.mk.inj hb
  obtain rfl := Except.ok.inj hba
  exact h

theorem ensures_modify {f : Workspace → Workspace} {Q : PUnit → Workspace → Prop} (h : Q ⟨⟩ (f w)) :
    (modify f : Describe ε PUnit).Ensures w Q := by
  intro b w' hb
  obtain ⟨-, rfl⟩ := Prod.mk.inj hb
  exact h

theorem ensures_lift {f : δ → ε} {x : Except δ α} (h : ∀ a, x = .ok a → Q a w) :
    (lift f x).Ensures w Q := by
  cases x with
  | error e => exact ensures_throw
  | ok a => exact ensures_pure (h a rfl)

/-- Failures may be told otherwise. -/
theorem Ensures.adapt {m : Describe δ α} (h : m.Ensures w Q) (f : δ → ε) :
    Ensures (ExceptT.adapt f m : ExceptT ε (StateM Workspace) α) w Q := by
  intro a w' ha
  have ha' : (((ExceptT.run m).run w).1.mapError f, ((ExceptT.run m).run w).2) = (.ok a, w') := ha
  rcases hm : (ExceptT.run m).run w with ⟨e | b, w₁⟩
  · rw [hm] at ha'
    exact absurd (Prod.mk.inj ha').1 (by simp [Except.mapError])
  · rw [hm] at ha'
    obtain ⟨hba, rfl⟩ := Prod.mk.inj ha'
    obtain rfl : b = a := Except.ok.inj hba
    exact h b w₁ hm

theorem Ensures.ofBuild {b : Build α} (h : Ensures b w Q) : (ofBuild b).Ensures w Q :=
  h.adapt DefinitionError.build

/-- The element type of what is no node: the one that is known, or else the one of the
definition. -/
theorem ensures_inferred {dtype input : String} {k : DType → Describe DefinitionError α}
    {P : DType → Prop} (known : Option DType) :
    (∀ d ∈ known, P d) → (known = none → ∀ d, parseDType dtype = .ok d → P d) →
      (∀ d, P d → (k d).Ensures w Q) →
    (do
      let d ←
        match known with
        | some d => pure d
        | none =>
          if dtype.isEmpty then throw (.uninferred input)
          lift id (parseDType dtype)
      k d : Describe DefinitionError α).Ensures w Q := by
  intro hknown hparsed hk
  cases known with
  | some d => exact (ensures_pure (hk d (hknown d rfl))).bind
  | none =>
    dsimp only
    split
    · exact ensures_throw.bind
    · exact (ensures_lift fun d hd => hk d (hparsed rfl d hd)).bind

end Ensures

end Describe

/-! ### Operands -/

/-- The operand is what an input stands for, where literals and symbols have an element type with
`P`. -/
def InputForm.Denotes (names : NodeNames) (P : DType → Prop) : InputForm → Operand → Prop
  | .reference name, o => ∃ r, names.find? name = some r ∧ o = .node r
  | .literal text, o =>
    ∃ t x v, P t ∧ t.parseLiteral text = .ok x ∧ Scalar.ofDouble t x = .ok v ∧ o = .scalar v
  | .symbol name, o => ∃ t, P t ∧ o = .symbol name t

/-- **Operands are what the inputs stand for.**  All that are no nodes have the element type that is
known, or else that of the definition. -/
theorem ensures_groupOperands {w : Workspace} {names : NodeNames} {dtype : String}
    {P : DType → Prop} {known : Option DType} (hknown : ∀ d ∈ known, P d)
    (hparsed : known = none → ∀ d, parseDType dtype = .ok d → P d) (inputs : List String) :
    (groupOperands dtype names known inputs).Ensures w fun os w' =>
      w' = w ∧ List.Forall₂ (fun input o =>
        (InputForm.ofText input).Denotes names P o) inputs os := by
  induction inputs generalizing known with
  | nil => exact Describe.ensures_pure ⟨rfl, .nil⟩
  | cons input rest ih =>
    -- one operand and the others
    have hcons : ∀ {o : Operand}
        {known : Option DType}, (InputForm.ofText input).Denotes names P o →
        (∀ d ∈ known, P d) → (known = none → ∀ d, parseDType dtype = .ok d → P d) →
        (do return o :: (← groupOperands dtype names known rest) :
          Describe DefinitionError (List Operand)).Ensures w fun os w' =>
            w' = w ∧ List.Forall₂ (fun input o => (InputForm.ofText input).Denotes names P o)
              (input :: rest) os := by
      intro o known ho hknown hparsed
      refine Describe.Ensures.bind ((ih hknown hparsed).mono ?_)
      rintro os _ ⟨rfl, hos⟩
      exact Describe.ensures_pure ⟨rfl, .cons ho hos⟩
    rw [groupOperands]
    cases hform : InputForm.ofText input with
    | reference name =>
      refine Describe.Ensures.bind (Describe.ensures_lift fun o ho => ?_)
      cases hfind : names.find? name with
      | none => simp [hfind, Operand.ofNode] at ho
      | some x =>
        rw [hfind] at ho
        obtain rfl := Except.ok.inj ho
        exact hcons (hform ▸ ⟨x, hfind, rfl⟩) hknown hparsed
    | literal text =>
      refine Describe.ensures_inferred known hknown hparsed fun d hd => ?_
      refine Describe.Ensures.bind (Describe.ensures_lift fun o ho => ?_)
      obtain ⟨v, hv, rfl⟩ := exists_of_map_eq_ok ho
      obtain ⟨x, hx, hv⟩ := parseScalar_eq_ok hv
      exact hcons (hform ▸ ⟨d, x, v, hd, hx, hv, rfl⟩) (by simpa using hd) (by simp)
    | symbol name =>
      refine Describe.ensures_inferred known hknown hparsed fun d hd => ?_
      refine Describe.Ensures.bind (Describe.ensures_lift fun o ho => ?_)
      rw [Operand.ofSymbol] at ho
      split at ho
      · exact absurd ho (by simp)
      · obtain rfl := Except.ok.inj ho
        exact hcons (hform ▸ ⟨d, hd, rfl⟩) (by simpa using hd) (by simp)

/-- The graph `g` can be analysed as far as it is built, and the nodes built for names are in it. -/
structure Workspace.Hosts (w : Workspace) (g : Nat) (names : NodeNames) : Prop where
  built : w.Built
  size : g < w.graphs.size
  admissible : w.Admissible g
  named : ∀ name x, names.find? name = some x → x.graph = g ∧ w.Has x

namespace Workspace.Hosts

variable {w : Workspace} {g : Nat} {names : NodeNames}

/-- **A call that fits the graph** leaves it one that can be analysed, with one more node. -/
theorem ensures_call (h : w.Hosts g names) {b : BuilderCall} (hb : b.FitsIn w g) :
    Describe.Ensures b.build w fun r w' => w'.Hosts g names ∧ r.graph = g ∧ w'.Has r := by
  intro r w' hcall
  have hextends := b.ends_extends h.size hb
  have hbuilt := h.built.call b hb.has
  rw [Build.Ends, Build.on, hcall] at hextends
  rw [Build.on, hcall] at hbuilt
  refine ⟨⟨hbuilt, ?_, ?_, ?_⟩, hextends.graph, hextends.has⟩
  · rw [hextends.size]
    exact h.size
  · exact hextends.admissible h.admissible
  · intro name x hx
    obtain ⟨hgraph, hhas⟩ := h.named name x hx
    exact ⟨hgraph, hextends.keeps x hhas⟩

/-- A node that is built gets its name. -/
theorem cons (h : w.Hosts g names) {r : NodeRef} (hr : r.graph = g ∧ w.Has r) (name : String) :
    w.Hosts g ((name, r) :: names) where
  built := h.built
  size := h.size
  admissible := h.admissible
  named name' x hx := by
    rw [NodeNames.find?, List.lookup_cons] at hx
    split at hx
    · obtain rfl := Option.some.inj hx
      exact hr
    · exact h.named name' x hx

end Workspace.Hosts

namespace Workspace.Hosts

variable {w : Workspace} {g : Nat} {names : NodeNames}

/-- What an input stands for can be read in the graph. -/
theorem fitsIn_of_denotes (h : w.Hosts g names) {form : InputForm} {o : Operand}
    (ho : form.Denotes names (fun d => d.isSupported = true) o) : o.FitsIn w g := by
  cases form with
  | reference name =>
    obtain ⟨r, hr, rfl⟩ := ho
    exact h.named name r hr
  | literal text =>
    obtain ⟨t, x, v, -, -, hv, rfl⟩ := ho
    obtain ⟨hsupported, rfl⟩ := Scalar.ofDouble_eq_ok hv
    exact hsupported
  | symbol name =>
    obtain ⟨t, ht, rfl⟩ := ho
    exact ht

/-- **Operands from texts can be read in the graph.** -/
theorem ensures_groupOperands (h : w.Hosts g names) (dtype : String) {known : Option DType}
    (hknown : ∀ d ∈ known, d.isSupported = true) (inputs : List String) :
    (groupOperands dtype names known inputs).Ensures w fun os w' => w' = w ∧
      ∀ o ∈ os, o.FitsIn w g := by
  refine (LanePadding.ensures_groupOperands hknown
    (fun _ _ => isSupported_of_parseDType) inputs).mono ?_
  rintro os w' ⟨hw, hos⟩
  refine ⟨hw, ?_⟩
  induction hos with
  | nil => simp
  | cons ho _ ih => exact List.forall_mem_cons.2 ⟨h.fitsIn_of_denotes ho, ih⟩

theorem isSupported_of_knownDType? (h : w.Hosts g names) {inputs : List String} :
    ∀ d ∈ knownDType? w names inputs, d.isSupported = true := by
  intro d hd
  obtain ⟨name, -, hname⟩ := Option.bind_eq_some_iff.1 hd
  obtain ⟨x, hx, rfl⟩ := Option.map_eq_some_iff.1 hname
  obtain ⟨hgraph, hhas⟩ := h.named name x hx
  exact h.admissible.isSupported h.built.wellFormed hgraph hhas

theorem ensures_operands (h : w.Hosts g names) (d : NodeDef) (op : OpKind) :
    (d.operands op names).Ensures w fun os w' => w' = w ∧ ∀ o ∈ os, o.FitsIn w g := by
  refine Describe.Ensures.bind (Describe.ensures_get ?_)
  refine Describe.Ensures.bind
    ((h.ensures_groupOperands d.dtype h.isSupported_of_knownDType? _).mono ?_)
  rintro xs _ ⟨rfl, hxs⟩
  refine Describe.Ensures.bind
    ((h.ensures_groupOperands d.dtype h.isSupported_of_knownDType? _).mono ?_)
  rintro ys _ ⟨rfl, hys⟩
  refine Describe.ensures_pure ⟨rfl, fun o ho => ?_⟩
  exact (List.mem_append.1 ho).elim (hxs o) (hys o)

/-! ### Definitions -/

theorem ensures_nodeOperand (op : OpKind) {o : Operand} (ho : o.FitsIn w g) :
    (nodeOperand op o).Ensures w fun r w' => w' = w ∧ r.graph = g ∧ w.Has r := by
  cases o with
  | node r => exact Describe.ensures_pure ⟨rfl, ho⟩
  | scalar v => exact Describe.ensures_throw
  | symbol name d => exact Describe.ensures_throw

theorem ensures_buildOperator (h : w.Hosts g names) (d : NodeDef) (op : OpKind)
    {operands : List Operand} (hoperands : ∀ o ∈ operands, o.FitsIn w g) :
    (d.buildOperator op operands).Ensures w fun r w' => w'.Hosts g names ∧ r.graph = g ∧
      w'.Has r := by
  -- a call on a single node
  have hsingle : ∀ {o : Operand} (b : NodeRef → BuilderCall), o ∈ operands →
      (∀ x : NodeRef, x.graph = g ∧ w.Has x → (b x).FitsIn w g) →
      (do Describe.ofBuild (b (← nodeOperand op o)).build :
        Describe DefinitionError NodeRef).Ensures w
        fun r w' => w'.Hosts g names ∧ r.graph = g ∧ w'.Has r := by
    intro o b ho hb
    refine Describe.Ensures.bind ((ensures_nodeOperand op (hoperands o ho)).mono ?_)
    rintro x _ ⟨rfl, hx⟩
    exact (h.ensures_call (hb x hx)).ofBuild
  fun_cases NodeDef.buildOperator d op operands with
  | case1 x =>
    refine Describe.Ensures.bind ((ensures_nodeOperand _ (hoperands x (by simp))).mono ?_)
    rintro r _ ⟨rfl, hr⟩
    refine Describe.Ensures.bind (Describe.ensures_lift fun t _ => ?_)
    exact (h.ensures_call (b := .cast r t) hr).ofBuild
  | case2 fn x => exact hsingle (.unary (.unary fn)) (by simp) fun _ hr => hr
  | case3 fn x y => exact (h.ensures_call (b := .binary (.binary fn) x y) hoperands).ofBuild
  | case4 x => exact hsingle (.broadcast · d.axes) (by simp) fun _ hr => hr
  | case5 fn x =>
    exact hsingle (.reduce (.reduce fn) · d.keepDims d.reduceAxes) (by simp) fun _ hr => hr
  | case6 x y =>
    refine Describe.Ensures.bind (Describe.ensures_lift fun mode _ => ?_)
    exact (h.ensures_call (b := .compare x y mode) hoperands).ofBuild
  | case7 c x y =>
    refine hsingle (.select · x y) (by simp) fun r hr o ho => ?_
    rcases List.mem_cons.1 ho with rfl | ho
    · exact hr
    · exact hoperands o (List.mem_cons_of_mem _ ho)
  | case8 x y t f =>
    refine Describe.Ensures.bind (Describe.ensures_lift fun mode _ => ?_)
    exact (h.ensures_call (b := .cmpSel x y mode t f) hoperands).ofBuild
  | case9 => exact Describe.ensures_throw

/-- **Building a definition** leaves the graph one that can be analysed, with one more node. -/
theorem ensures_build (h : w.Hosts g names) (d : NodeDef) :
    (d.build g names).Ensures w fun r w' => w'.Hosts g names ∧ r.graph = g ∧ w'.Has r := by
  refine Describe.Ensures.bind (Describe.ensures_lift fun op _ => ?_)
  dsimp only
  split
  · exact Describe.Ensures.bind Describe.ensures_throw
  · split
    · refine Describe.Ensures.bind (Describe.ensures_lift fun t _ => ?_)
      split
      · exact (h.ensures_call (b := .placeholder g d.name t d.axes) rfl).ofBuild
      · refine Describe.Ensures.bind (Describe.ensures_lift fun p hp => ?_)
        have hb : (BuilderCall.placeholderWithPadding g d.name (some p) t d.axes).FitsIn w g :=
          ⟨rfl, by simpa using isKnown_of_parsePadding hp⟩
        exact (h.ensures_call hb).ofBuild
    · refine Describe.Ensures.bind (Describe.ensures_lift fun t _ => ?_)
      refine Describe.Ensures.bind (Describe.ensures_lift fun v _ => ?_)
      have hb : (BuilderCall.constant g v d.axes).FitsIn w g := rfl
      refine Describe.Ensures.ofBuild (Describe.Ensures.bind ((h.ensures_call hb).mono ?_))
      rintro r w' ⟨hw', hr⟩
      exact hw'.ensures_call (b := .withName r d.name) hr
    · refine Describe.Ensures.bind ((h.ensures_operands d op).mono ?_)
      rintro operands _ ⟨rfl, hoperands⟩
      refine Describe.Ensures.bind ((h.ensures_buildOperator d op hoperands).mono ?_)
      rintro r w' ⟨hw', hr⟩
      exact (hw'.ensures_call (b := .withName r d.name) hr).ofBuild

/-- **Building definitions one after the other** leaves a graph that can be analysed. -/
theorem ensures_buildFrom (h : w.Hosts g names) (count i : Nat) (defs : List NodeDef) :
    (Description.buildFrom g count i names defs).Ensures w fun names' w' => w'.Hosts g names' := by
  induction defs generalizing w i names with
  | nil => exact Describe.ensures_pure h
  | cons d rest ih =>
    refine Describe.Ensures.bind (((h.ensures_build d).adapt _).mono ?_)
    rintro r w' ⟨hw', hr⟩
    exact ih (hw'.cons hr d.name) (i + 1)

/-- A new graph can be analysed: it has no nodes yet. -/
theorem of_addGraph (hw : w.Built) (name : String) : (w.addGraph name).Hosts w.graphs.size [] where
  built := hw.addGraph name
  size := by simp [Workspace.addGraph]
  admissible := by
    intro x hx
    obtain ⟨hgraph, hhas⟩ := mem_allNodes.1 hx
    simp [Has, hgraph, Workspace.addGraph, Workspace.graph] at hhas
  named name' x hx := by simp [NodeNames.find?] at hx

end Workspace.Hosts

/-! ## Outputs -/

/-- Names that pass the check are told apart from literals and symbols, and from each other. -/
theorem checkNames_eq_ok {i : Nat} {seen : List String} {defs : List NodeDef} {u : Unit}
    (h : checkNames i seen defs = .ok u) :
    (∀ d ∈ defs, d.hasValidName = true ∧ d.name ∉ seen) ∧ (defs.map NodeDef.name).Nodup := by
  induction defs generalizing i seen with
  | nil => simp
  | cons d rest ih =>
    rw [checkNames] at h
    split_ifs at h with hempty hvalid hseen
    obtain ⟨hrest, hnodup⟩ := ih h
    refine ⟨?_, ?_⟩
    · intro d' hd'
      rcases List.mem_cons.1 hd' with rfl | hd'
      · exact ⟨by simpa using hvalid, hseen⟩
      · exact ⟨(hrest d' hd').1, fun hmem => (hrest d' hd').2 (List.mem_cons_of_mem _ hmem)⟩
    · refine List.nodup_cons.2 ⟨fun hmem => ?_, hnodup⟩
      obtain ⟨d', hd', hname⟩ := List.mem_map.1 hmem
      exact (hrest d' hd').2 (hname ▸ List.mem_cons_self)

/-- The name of a definition is read as a reference. -/
theorem InputForm.ofText_name {d : NodeDef} (h : d.hasValidName = true) :
    InputForm.ofText d.name = .reference d.name := by
  rw [NodeDef.hasValidName] at h
  rw [InputForm.ofText]
  split <;> simp_all

/-- The definition at position `i` does not refer to the one at position `k`. -/
def Ignores (defs : List NodeDef) (i k : Nat) : Prop :=
  (defs.getD k .blank).name ∉ (defs.getD i .blank).references

/-- **What rounds take**: all that they do not leave, and no definition before one that it refers
to. -/
theorem takeRounds_spec (defs : List NodeDef) (taken : List String) (left : List Nat)
    (hnames : (left.map fun i => (defs.getD i .blank).name).Nodup)
    (htaken : ∀ i ∈ left, (defs.getD i .blank).name ∉ taken) :
    (∀ i, i ∈ left ↔ i ∈ (takeRounds defs taken left).1 ∨ i ∈ (takeRounds defs taken left).2) ∧
      (takeRounds defs taken left).1.Pairwise (Ignores defs) ∧
      ∀ i ∈ (takeRounds defs taken left).1, Ignores defs i i := by
  fun_induction takeRounds defs taken left with
  | case1 taken left hnone => simp
  | case2 taken left hsome ready names next ih =>
    have hready : ∀ i ∈ ready, i ∈ left ∧ ∀ ref ∈ (defs.getD i .blank).references, ref ∈ taken := by
      intro i hi
      obtain ⟨hleft, hall⟩ := List.mem_filter.1 hi
      exact ⟨hleft, by simpa using hall⟩
    have hsplit : ∀ i, i ∈ left ↔ i ∈ ready ∨ i ∈ notReady defs taken left := by
      intro i
      simp only [ready, readyNow, notReady, List.mem_filter]
      grind
    -- what is ready refers to what was taken, and nothing of that is left
    have hignores : ∀ i ∈ ready, ∀ k ∈ left, Ignores defs i k :=
      fun i hi k hk hmem => htaken k hk ((hready i hi).2 _ hmem)
    have hnames' : ((notReady defs taken left).map fun i => (defs.getD i .blank).name).Nodup :=
      hnames.sublist (List.filter_sublist.map _)
    have htaken' : ∀ i ∈ notReady defs taken left, (defs.getD i .blank).name ∉ names ++ taken := by
      intro i hi hmem
      obtain ⟨hleft, hfails⟩ := List.mem_filter.1 hi
      rcases List.mem_append.1 hmem with hmem | hmem
      · obtain ⟨j, hj, hname⟩ := List.mem_map.1 hmem
        obtain rfl := List.inj_on_of_nodup_map hnames (hready j hj).1 hleft hname
        rw [(List.mem_filter.1 hj).2] at hfails
        exact absurd hfails (by simp)
      · exact htaken i hleft hmem
    obtain ⟨hcover, hpair, hself⟩ := ih hnames' htaken'
    have hnext : ∀ k ∈ next.1, k ∈ left := fun k hk => (hsplit k).2 (.inr ((hcover k).2 (.inl hk)))
    refine ⟨fun i => ?_, List.pairwise_append.2 ⟨?_, hpair, ?_⟩, fun i hi => ?_⟩
    · rw [hsplit, hcover, List.mem_append, or_assoc]
    · exact List.pairwise_of_forall_mem_list fun i hi k hk => hignores i hi k (hready k hk).1
    · exact fun i hi k hk => hignores i hi k (hnext k hk)
    · rcases List.mem_append.1 hi with hi | hi
      · exact hignores i hi i (hready i hi).1
      · exact hself i hi

namespace Description

theorem order_eq_ok {d : Description} {order : List Nat} (h : d.order = .ok order) :
    (∃ u, checkNames 0 [] d.nodes = .ok u) ∧ takeRounds d.nodes [] (List.range d.nodes.length) =
      (order, []) := by
  unfold Description.order at h
  cases hnames : checkNames 0 [] d.nodes with
  | error e => simp [hnames, bind, Except.bind] at h
  | ok u =>
    refine ⟨⟨u, rfl⟩, ?_⟩
    rw [hnames] at h
    simp only [bind, Except.bind] at h
    split at h
    · exact absurd h (by simp [throw, throwThe, MonadExceptOf.throw])
    · split at h
      · rename_i hleft
        obtain rfl := Except.ok.inj h
        rw [List.isEmpty_iff] at hleft
        rw [← hleft]
      · exact absurd h (by simp [throw, throwThe, MonadExceptOf.throw])

/-- **A definition that nobody reads**: the last one in the order. -/
theorem exists_unread {d : Description} {order : List Nat} (h : d.order = .ok order)
    (hne : d.nodes ≠ []) :
    ∃ n ∈ d.nodes, ∀ m ∈ d.nodes, n.name ∉ m.inputs := by
  obtain ⟨⟨u, hchecked⟩, hrounds⟩ := order_eq_ok h
  obtain ⟨hvalid, hnodup⟩ := checkNames_eq_ok hchecked
  have hat : ∀ n ∈ d.nodes, ∃ i < d.nodes.length, d.nodes.getD i .blank = n := by
    intro n hn
    obtain ⟨i, hi, rfl⟩ := List.getElem_of_mem hn
    exact ⟨i, hi, by simp [hi]⟩
  have hnames : (List.range d.nodes.length).map (fun i => (d.nodes.getD i .blank).name) =
      d.nodes.map NodeDef.name := by
    refine List.ext_getElem (by simp) fun i hi hi' => ?_
    have hlt : i < d.nodes.length := by simpa using hi
    simp [hlt]
  obtain ⟨hcover, hpair, hself⟩ :=
    takeRounds_spec d.nodes [] (List.range d.nodes.length) (by rwa [hnames]) (by simp)
  rw [hrounds] at hcover hpair hself
  have hmem : ∀ i, i < d.nodes.length ↔ i ∈ order := fun i => by simpa using hcover i
  rcases List.eq_nil_or_concat' order with rfl | ⟨init, last, rfl⟩
  · exact absurd ((hmem 0).1 (List.length_pos_of_ne_nil hne)) (by simp)
  · have hlast : last < d.nodes.length := (hmem last).2 (by simp)
    have hlastMem : d.nodes.getD last .blank ∈ d.nodes := by simp [hlast]
    refine ⟨_, hlastMem, fun m hm hread => ?_⟩
    obtain ⟨k, hk, rfl⟩ := hat m hm
    have hignores : Ignores d.nodes k last := by
      rcases List.mem_append.1 ((hmem k).1 hk) with hinit | hinit
      · exact (List.pairwise_append.1 hpair).2.2 k hinit last (by simp)
      · obtain rfl := List.mem_singleton.1 hinit
        exact hself k (by simp)
    refine hignores (List.mem_filterMap.2 ⟨_, List.mem_map.2 ⟨_, hread, rfl⟩, ?_⟩)
    rw [InputForm.ofText_name (hvalid _ hlastMem).1]
    rfl

/-- A description with nodes has outputs. -/
theorem outputNames_ne_nil {d : Description} {order : List Nat} (h : d.order = .ok order)
    (hne : d.nodes ≠ []) :
    d.outputNames ≠ [] := by
  unfold outputNames
  split
  · obtain ⟨n, hn, hunread⟩ := exists_unread h hne
    refine List.ne_nil_of_mem (a := n.name) (List.mem_filter.2 ⟨List.mem_map_of_mem hn, ?_⟩)
    simpa using hunread
  · rename_i houtputs
    simpa using houtputs

/-- All names that are wanted are found. -/
theorem findAll_eq_ok {names : NodeNames} {wanted : List String} {found : List NodeRef}
    (h : findAll names wanted = .ok found) : wanted.map names.find? = found.map some := by
  induction wanted generalizing found with
  | nil =>
    obtain rfl : [] = found := Except.ok.inj h
    rfl
  | cons name rest ih =>
    rw [findAll, List.mapM_cons] at h
    cases hname : names.find? name with
    | none => simp [hname, bind, Except.bind] at h
    | some x =>
      cases hrest : findAll names rest with
      | error e =>
        rw [findAll] at hrest
        simp [hname, hrest, bind, Except.bind] at h
      | ok xs =>
        have hxs := ih hrest
        rw [findAll] at hrest
        simp only [hname, hrest, bind, Except.bind, pure, Except.pure, Except.ok.injEq] at h
        subst h
        rw [List.map_cons, List.map_cons, hname, hxs]

/-- **A described graph can be analysed**: it is admissible, and has outputs. -/
theorem ensures_build {w : Workspace} (hw : w.Built) {d : Description} (hne : d.nodes ≠ []) :
    d.build.Ensures w fun m w' => w'.Built ∧ w'.Admissible m.graph ∧ m.outputs ≠ [] ∧
      ∀ x ∈ m.outputs, x.graph = m.graph ∧ w'.Has x := by
  refine Describe.Ensures.bind (Describe.ensures_lift fun order horder => ?_)
  refine Describe.Ensures.bind (Describe.ensures_get ?_)
  refine Describe.Ensures.bind (Describe.ensures_modify ?_)
  refine Describe.Ensures.bind
    (((Workspace.Hosts.of_addGraph hw d.name).ensures_buildFrom _ _ _).mono ?_)
  intro names w' hw'
  refine Describe.Ensures.bind (Describe.ensures_lift fun outputs houtputs => ?_)
  have hfound := findAll_eq_ok houtputs
  refine Describe.ensures_pure ⟨hw'.built, hw'.admissible, ?_, fun x hx => ?_⟩
  · rintro rfl
    exact outputNames_ne_nil horder hne (List.map_eq_nil_iff.1 hfound)
  · have hmem : some x ∈ d.outputNames.map names.find? := hfound ▸ List.mem_map_of_mem hx
    obtain ⟨name, -, hname⟩ := List.mem_map.1 hmem
    exact hw'.named name x hname

end Description

/-- **Every graph can be analysed.**  With the limits of the element types, whatever the conventions
for inputs and outputs are, the analysis of a graph that was made with the builders succeeds if the
padding values that the graph declares are of known kinds and its immediate scalars and symbols have
supported element types.  A graph that a description gives always meets this, and its outputs are
there to be analysed. -/
theorem Engine.analyses_of_built {engine : Engine} (hplatform : engine.platform = .default)
    (hinputs : ∀ p ∈ engine.inputPadding, p.content.isKnown = true) {w : Workspace} (hw : w.Built) :
    (∀ g, w.Admissible g → ∀ roots, roots ≠ [] → (∀ x ∈ roots, x.graph = g ∧ w.Has x) →
      engine.Analyses w roots) ∧
    ∀ d : Description, d.nodes ≠ [] → ∀ m w', (ExceptT.run d.build).run w = (.ok m, w') →
      engine.Analyses w' m.outputs := by
  have hengine : engine.Complete := ⟨hplatform ▸ Platform.complete_default, hinputs⟩
  refine ⟨fun g hg roots hne hroots => hengine.analyses hw.wellFormed hg hne hroots, ?_⟩
  intro d hne m w' hm
  obtain ⟨hbuilt, hg, houtputs, hgraph⟩ := Description.ensures_build hw hne m w' hm
  exact hengine.analyses hbuilt.wellFormed hg houtputs hgraph

/-- Reciprocals where the operand is below a limit known only at run time, and zeros elsewhere.  The
nodes are listed before those that they read, and no outputs are. -/
def Description.guardedReciprocal : Description where
  name := "guarded"
  nodes := [
    { NodeDef.blank with
      name := "y", op := "CmpSel", inputs := ["x", "$limit", "r", "=0"], mode := "<" },
    { NodeDef.blank with name := "r", op := "Reciprocal", inputs := ["x"] },
    { NodeDef.blank with
      name := "x", op := "Placeholder", dtype := "Float32", axes := [⟨16, 15⟩], padding := "any" }]
  outputs := []

theorem Description.exists_build_guardedReciprocal :
    ∃ m w', (ExceptT.run guardedReciprocal.build).run .sharedExponential = (.ok m, w') ∧
      m.outputs = [⟨1, 2⟩] := by
  have hbuilt : ∃ m, ((ExceptT.run guardedReciprocal.build).run .sharedExponential).1 = .ok m ∧
      m.outputs = [⟨1, 2⟩] :=
    exists_ok_of_test (by decide +kernel)
  obtain ⟨m, hm, houtputs⟩ := hbuilt
  exact ⟨m, _, Prod.ext hm rfl, houtputs⟩

/-- Both a graph made by hand and one from a description, with inputs of which nothing is known. -/
theorem Engine.analyses_guardedReciprocal :
    Analyses ⟨.default, false, some .unconstrained⟩ .sharedExponential [⟨0, 3⟩, ⟨0, 2⟩] ∧
      ∃ m w', (ExceptT.run Description.guardedReciprocal.build).run .sharedExponential =
        (.ok m, w') ∧
        m.outputs = [⟨1, 2⟩] ∧ Analyses ⟨.default, false, some .unconstrained⟩ w' m.outputs := by
  obtain ⟨m, w', hm, houtputs⟩ := Description.exists_build_guardedReciprocal
  have hplatform : (⟨.default, false, some .unconstrained⟩ : Engine).platform = .default := rfl
  have hinputs : ∀ p ∈ some PaddingValue.unconstrained, p.content.isKnown = true := by decide
  obtain ⟨hmade, hdescribed⟩ :=
    analyses_of_built hplatform hinputs Workspace.built_sharedExponential
  refine ⟨hmade 0 (by decide) _ (by simp) (by decide), m, w', hm, houtputs, ?_⟩
  exact hdescribed .guardedReciprocal (by simp [Description.guardedReciprocal]) m w' hm

end LanePadding
