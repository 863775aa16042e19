import LanePadding.Proofs.Answers

/-!
# Graphs that correspond

Two graphs may compute the same although their nodes were made in different orders.  Whether a node
of one graph stands for a node of the other is told by a relation, and so it is for position
expressions, which name nodes.  From these two relations it follows what it means that padding lanes
hold the same, that operands are the same, and that nodes are the same (`Correspondence`).

Equations do not look at names.  The rules of operators find the same scalars, and they ask of
origins only whether they are equal, which is preserved if the relation between nodes is one-to-one.
Hence nodes that are the same and that read the same have the same solution
(`Correspondence.Consistent.infer`).

## What is here

* `Correspondence` — which nodes and expressions of two graphs stand for each other.
* `Correspondence.SamePadding.comparePadding`, ... — the rules of operators.
* `Correspondence.Consistent.infer` — the equation of a node.
-/

set_option autoImplicit false

namespace Option.Rel

theorem bind {α β γ δ : Type} {R : α → β → Prop} {T : γ → δ → Prop} {o : Option α} {o' : Option β}
    {f : α → Option γ} {f' : β → Option δ} (h : Option.Rel R o o')
    (hf : ∀ a a', R a a' → Option.Rel T (f a) (f' a')) : Option.Rel T (o.bind f) (o'.bind f') := by
  cases h with
  | none => exact .none
  | some h => exact hf _ _ h

theorem map {α β γ δ : Type} {R : α → β → Prop} {T : γ → δ → Prop} {o : Option α} {o' : Option β}
    {f : α → γ} {f' : β → δ} (h : Option.Rel R o o') (hf : ∀ a a', R a a' → T (f a) (f' a')) :
    Option.Rel T (o.map f) (o'.map f') := by
  cases h with
  | none => exact .none
  | some h => exact .some (hf _ _ h)

end Option.Rel

namespace LanePadding

/-- Which nodes and which position expressions of two graphs stand for each other. -/
structure Correspondence where
  nodes : NodeRef → NodeRef → Prop
  exprs : PositionExpr → PositionExpr → Prop

namespace Correspondence

section

variable (κ : Correspondence)

/-- Padding lanes hold the same. -/
inductive SameContent : Content → Content → Prop
  | exact (v : Scalar) : SameContent (.exact v) (.exact v)
  | computed : SameContent (.dependent none) (.dependent none)
  | copied {e e' : PositionExpr} (h : κ.exprs e e') : SameContent (.dependent (some e))
      (.dependent (some e'))
  | unconstrained : SameContent .unconstrained .unconstrained
  | unknown (code : Int) : SameContent (.unknown code) (.unknown code)

/-- The same content comes from the same tensor; who relies on it does not matter. -/
structure SamePadding (p p' : PaddingValue) : Prop where
  content : κ.SameContent p.content p'.content
  origin : Option.Rel κ.nodes p.origin p'.origin

inductive SameOperand : Operand → Operand → Prop
  | node {x x' : NodeRef} (h : κ.nodes x x') : SameOperand (.node x) (.node x')
  | scalar (v : Scalar) : SameOperand (.scalar v) (.scalar v)
  | symbol (name : String) (d : DType) : SameOperand (.symbol name d) (.symbol name d)

/-- The operators are the same, together with what they need besides operands. -/
inductive SameOp : Op → Op → Prop
  | input : SameOp (.placeholder none) (.placeholder none)
  | declared {p p' : PaddingValue} (h : κ.SameContent p.content p'.content) :
      SameOp (.placeholder (some p)) (.placeholder (some p'))
  | other {op : Op} (h : op.kind ≠ .placeholder) : SameOp op op

/-- The nodes are the same, but for the names given to them. -/
structure SameNode (n n' : Node) : Prop where
  op : κ.SameOp n.op n'.op
  operands : List.Forall₂ κ.SameOperand n.operands n'.operands
  dtype : n.dtype = n'.dtype
  axes : n.axes = n'.axes

/-- The answers of two computations hold the same, or both fail. -/
def SameAnswer (x x' : Except RunError PaddingValue) : Prop :=
  Option.Rel κ.SameContent (x.toOption.map PaddingValue.content)
    (x'.toOption.map PaddingValue.content)

end

variable {κ : Correspondence} {p p' q q' : PaddingValue} {c c' : Content}

theorem SameContent.of_exact {v : Scalar} (h : κ.SameContent (.exact v) c') : c' = .exact v := by
  cases h
  rfl

theorem SameContent.fits (h : κ.SameContent c c') {d : DType} (hc : c'.Fits d) : c.Fits d := by
  rintro v rfl
  exact hc v h.of_exact

/-- The relations the other way round. -/
def symm (κ : Correspondence) :
    Correspondence := ⟨fun x x' => κ.nodes x' x, fun e e' => κ.exprs e' e⟩

theorem SameContent.symm (h : κ.SameContent c c') : κ.symm.SameContent c' c := by
  cases h with
  | exact v => exact .exact v
  | computed => exact .computed
  | copied h => exact .copied h
  | unconstrained => exact .unconstrained
  | unknown code => exact .unknown code

theorem SameOp.symm {op op' : Op} (h : κ.SameOp op op') : κ.symm.SameOp op' op := by
  cases h with
  | input => exact .input
  | declared h => exact .declared h.symm
  | other h => exact .other h

theorem SameOperand.symm {a a' : Operand} (h : κ.SameOperand a a') : κ.symm.SameOperand a' a := by
  cases h with
  | node h => exact .node h
  | scalar v => exact .scalar v
  | symbol name d => exact .symbol name d

theorem SameNode.symm {n n' : Node} (h : κ.SameNode n n') : κ.symm.SameNode n' n where
  op := h.op.symm
  operands := List.Forall₂.flip (h.operands.imp fun _ _ => SameOperand.symm)
  dtype := h.dtype.symm
  axes := h.axes.symm

theorem SamePadding.exact (v : Scalar) : κ.SamePadding (.exact v) (.exact v) := ⟨.exact v, .none⟩

theorem SamePadding.clone (h : κ.SamePadding p p') :
    κ.SamePadding p.clone p'.clone := ⟨h.content, h.origin⟩

theorem SamePadding.of_clone (h : κ.SamePadding p.clone p'.clone) :
    κ.SamePadding p p' := ⟨h.content, h.origin⟩

theorem SamePadding.isExact_eq (h : κ.SamePadding p p') (v : Scalar) :
    p.isExact v = p'.isExact v := by
  obtain ⟨c, o, t⟩ := p
  obtain ⟨c', o', t'⟩ := p'
  obtain ⟨hc, -⟩ := h
  cases hc <;> rfl

/-! ## Rules of operators -/

theorem sameAnswer_exact {α : Type} (x : Except RunError α) (f : α → Scalar) :
    κ.SameAnswer (do return .exact (f (← x))) (do return .exact (f (← x))) := by
  cases x with
  | error e => exact .none
  | ok a => exact .some (.exact (f a))

theorem SamePadding.unaryPadding (h : κ.SamePadding p p') (op : OpKind) (d : DType) :
    κ.SameAnswer (p.unaryPadding op d) (p'.unaryPadding op d) := by
  obtain ⟨c, o, t⟩ := p
  obtain ⟨c', o', t'⟩ := p'
  obtain ⟨hc, -⟩ := h
  cases hc with
  | exact v => exact sameAnswer_exact _ id
  | computed | copied => exact .some .computed
  | unconstrained | unknown => exact .some .unconstrained

theorem SamePadding.reducePadding (h : κ.SamePadding p p') (op : OpKind) (count : Int) :
    κ.SameAnswer (p.reducePadding op count) (p'.reducePadding op count) := by
  obtain ⟨c, o, t⟩ := p
  obtain ⟨c', o', t'⟩ := p'
  obtain ⟨hc, -⟩ := h
  cases hc with
  | exact v => exact sameAnswer_exact _ id
  | computed | copied => exact .some .computed
  | unconstrained | unknown => exact .some .unconstrained

theorem SamePadding.meetData (h : κ.SamePadding p p') : κ.SamePadding p.meetData p'.meetData := by
  obtain ⟨c, o, t⟩ := p
  obtain ⟨c', o', t'⟩ := p'
  obtain ⟨hc, -⟩ := h
  cases hc with
  | computed | copied => exact ⟨.computed, .none⟩
  | exact | unconstrained | unknown => exact ⟨.unconstrained, .none⟩

theorem sameAnswer_binaryWithData (platform : Platform) (op : OpKind) (v : Scalar) :
    κ.SameAnswer (platform.binaryWithData op v) (platform.binaryWithData op v) := by
  rw [Platform.binaryWithData]
  cases platform.sentinels v.dtype with
  | error e => exact .none
  | ok limits =>
    simp only [bind, Except.bind]
    split_ifs
    · exact .some (.exact _)
    · exact .some (.exact _)
    · exact .some .unconstrained

theorem SamePadding.binaryPadding (hp : κ.SamePadding p p') (hq : κ.SamePadding q q')
    (platform : Platform) (op : OpKind) :
    κ.SameAnswer (platform.binaryPadding op p q) (platform.binaryPadding op p' q') := by
  obtain ⟨c, o, t⟩ := p
  obtain ⟨c', o', t'⟩ := p'
  obtain ⟨d, u, s⟩ := q
  obtain ⟨d', u', s'⟩ := q'
  obtain ⟨hc, -⟩ := hp
  obtain ⟨hd, -⟩ := hq
  cases hc <;> cases hd
  case exact.exact => exact sameAnswer_exact _ id
  case exact.computed | exact.copied => exact sameAnswer_binaryWithData ..
  case computed.exact | copied.exact =>
    simp only [Platform.binaryPadding]
    split_ifs
    · exact sameAnswer_binaryWithData ..
    · exact .some .unconstrained
  case computed.computed | computed.copied | copied.computed | copied.copied =>
    exact .some .computed
  -- content of an unknown kind is an error, also where it meets unconstrained lanes
  all_goals first | exact .none | exact .some .unconstrained

theorem sameAnswer_compareWithData (platform : Platform) (mode : CompareMode) (v : Scalar) :
    κ.SameAnswer (platform.compareWithData mode v) (platform.compareWithData mode v) := by
  rw [Platform.compareWithData]
  cases platform.sentinels v.dtype with
  | error e => exact .none
  | ok limits =>
    simp only [bind, Except.bind]
    split_ifs
    · exact .some (.exact _)
    · exact .some (.exact _)
    · exact .some (.exact _)
    · exact .some (.exact _)
    · exact .some .unconstrained

/-- One-to-one relations preserve whether two origins are equal. -/
theorem beq_origin_eq (hκ : Relator.BiUnique κ.nodes) {o o' u u' : Option NodeRef}
    (ho : Option.Rel κ.nodes o o') (hu : Option.Rel κ.nodes u u') :
    (o.isSome && o == u) = (o'.isSome && o' == u') := by
  cases ho with
  | none => rfl
  | some ho =>
    cases hu with
    | none => rfl
    | some hu =>
      rw [Bool.eq_iff_iff]
      simp only [Option.isSome_some, Bool.true_and, beq_iff_eq, Option.some.injEq]
      constructor
      · rintro rfl
        exact hκ.2 ho hu
      · rintro rfl
        exact hκ.1 ho hu

theorem SamePadding.sameValue_eq (hκ : Relator.BiUnique κ.nodes) (hp : κ.SamePadding p p')
    (hq : κ.SamePadding q q') :
    p.sameValue q = p'.sameValue q' := by
  obtain ⟨c, o, t⟩ := p
  obtain ⟨c', o', t'⟩ := p'
  obtain ⟨d, u, s⟩ := q
  obtain ⟨d', u', s'⟩ := q'
  obtain ⟨hc, ho⟩ := hp
  obtain ⟨hd, hu⟩ := hq
  cases hc <;> cases hd
  case unconstrained.unconstrained => exact beq_origin_eq hκ ho hu
  all_goals rfl

theorem SamePadding.comparePadding (hκ : Relator.BiUnique κ.nodes) (hp : κ.SamePadding p p')
    (hq : κ.SamePadding q q') (platform : Platform) (mode : CompareMode) :
    κ.SameAnswer (platform.comparePadding mode p q) (platform.comparePadding mode p' q') := by
  have hsame := hp.sameValue_eq hκ hq
  rw [Platform.comparePadding, Platform.comparePadding]
  split
  · exact .none
  · obtain ⟨c, o, t⟩ := p
    obtain ⟨c', o', t'⟩ := p'
    obtain ⟨d, u, s⟩ := q
    obtain ⟨d', u', s'⟩ := q'
    obtain ⟨hc, -⟩ := hp
    obtain ⟨hd, -⟩ := hq
    cases hc <;> cases hd
    case exact.exact => exact sameAnswer_exact _ Scalar.ofBool
    case exact.computed | exact.copied | computed.exact | copied.exact =>
      exact sameAnswer_compareWithData ..
    case computed.computed | computed.copied | copied.computed | copied.copied =>
      exact .some .computed
    case unconstrained.unconstrained =>
      simp only [hsame]
      split_ifs
      · exact .some (.exact _)
      · exact .some .unconstrained
    all_goals first | exact .none | exact .some .unconstrained

/-- Selecting asks of a condition whether it is known, and of branches whether they hold the
same. -/
theorem selectContent_same (hκ : Relator.BiUnique κ.nodes) (hcond : κ.SameContent c c')
    {t t' f f' : Option PaddingValue} (ht : Option.Rel κ.SamePadding t t')
    (hf : Option.Rel κ.SamePadding f f') :
    Option.Rel κ.SameContent (selectContent c t f) (selectContent c' t' f') := by
  have hunconstrained : ∀ {d d' : Content}, κ.SameContent d d' →
      (d = .unconstrained ↔ d' = .unconstrained) := by
    intro d d' hd
    cases hd <;> simp
  have hboth : Option.Rel κ.SameContent
      (do
        let t ← t
        let f ← f
        if t.sameValue f then return t.content
        else if c = .unconstrained ∨ t.content = .unconstrained ∨ f.content = .unconstrained then
          return .unconstrained
        else return .dependent none)
      (do
        let t ← t'
        let f ← f'
        if t.sameValue f then return t.content
        else if c' = .unconstrained ∨ t.content = .unconstrained ∨ f.content = .unconstrained then
          return .unconstrained
        else return .dependent none) := by
    refine ht.bind fun p p' hp => hf.bind fun q q' hq => ?_
    simp only [hp.sameValue_eq hκ hq, hunconstrained hcond, hunconstrained hp.content,
      hunconstrained hq.content]
    split_ifs
    · exact .some hp.content
    · exact .some .unconstrained
    · exact .some .computed
  cases hcond with
  | exact v =>
    rw [selectContent, selectContent]
    split_ifs
    · exact hf.map fun _ _ h => h.content
    · exact ht.map fun _ _ h => h.content
  | computed => exact hboth
  | copied h => exact hboth
  | unconstrained => exact hboth
  | unknown code => exact hboth

/-! ## The equation of a node -/

section

variable {w w' : Workspace} {n n' : NodeRef} {r r' : Run} {engine : Engine}

/-- The two nodes read the same from the inputs that stand for each other. -/
def SameReads (κ : Correspondence) (w : Workspace) (n n' : NodeRef) (r r' : Run) : Prop :=
  ∀ x ∈ (w.node n).inputs, ∀ x', κ.nodes x x' →
    Option.Rel κ.SamePadding (r.read x (some n)) (r'.read x' (some n'))

/-- What is asked of two graphs: nodes that stand for each other are the same. -/
structure Consistent (κ : Correspondence) (engine : Engine) (w w' : Workspace) : Prop where
  unique : Relator.BiUnique κ.nodes
  same : ∀ x x', κ.nodes x x' → κ.SameNode (w.node x) (w'.node x')
  exprs : ∀ x x', κ.nodes x x' → ∀ axes, κ.exprs ⟨x, axes⟩ ⟨x', axes⟩
  /-- What inputs hold by convention is the same for both graphs. -/
  inputs : ∀ p ∈ engine.inputPadding, κ.SameContent p.content p.content

theorem Consistent.symm (h : κ.Consistent engine w w') : κ.symm.Consistent engine w' w where
  unique := ⟨fun _ _ _ hx hy => h.unique.2 hx hy, fun _ _ _ hx hy => h.unique.1 hx hy⟩
  same x' x hx := (h.same x x' hx).symm
  exprs x' x hx := h.exprs x x' hx
  inputs p hp := (h.inputs p hp).symm

/-- How a consumer reads the lanes of an operand depends on their axes. -/
theorem SameNode.alignedAxes_eq {c c' x x' : Node} (hc : κ.SameNode c c') (hx : κ.SameNode x x') :
    c.alignedAxes x = c'.alignedAxes x' := by
  obtain ⟨-, -, -, hcaxes⟩ := hc
  obtain ⟨-, -, -, hxaxes⟩ := hx
  cases c
  cases x
  obtain rfl := hcaxes
  obtain rfl := hxaxes
  rfl

theorem Consistent.sees (h : κ.Consistent engine w w') (hnode : κ.SameNode (w.node n) (w'.node n'))
    (hreads : κ.SameReads w n n' r r') {a a' : Operand} (ha : a ∈ (w.node n).operands)
    (hsame : κ.SameOperand a a') :
    Option.Rel κ.SamePadding (r.sees w n a) (r'.sees w' n' a') := by
  cases hsame with
  | scalar v => exact .some (.exact v)
  | symbol name d => exact .some ⟨.computed, .none⟩
  | @node x x' hx =>
    have hread := hreads x (List.mem_filterMap.2 ⟨_, ha, rfl⟩) x' hx
    have haligned := hnode.alignedAxes_eq (h.same x x' hx)
    have hinto : (w.node n).axesIntoPadding (w.node x) =
        (w'.node n').axesIntoPadding (w'.node x') := by
      rw [Node.axesIntoPadding, Node.axesIntoPadding, haligned]
    have hreadsPadding : (w.node n).paddingReadsPadding (w.node x) =
        (w'.node n').paddingReadsPadding (w'.node x') := by
      rw [Node.paddingReadsPadding, Node.paddingReadsPadding, haligned]
    rw [Run.sees, Run.sees, hinto, hreadsPadding]
    split_ifs
    · exact hread.map fun _ _ hp => hp.clone
    · exact hread.map fun _ _ hp => hp.meetData
    · exact .some ⟨.copied (h.exprs x x' hx _), .none⟩

theorem Consistent.seesAt (h : κ.Consistent engine w w')
    (hnode : κ.SameNode (w.node n) (w'.node n')) (hreads : κ.SameReads w n n' r r') (i : Nat) :
    Option.Rel κ.SamePadding (r.seesAt w n i) (r'.seesAt w' n' i) := by
  have hoperand : ∀ {l l' : List Operand}, List.Forall₂ κ.SameOperand l l' →
      (∀ a ∈ l, a ∈ (w.node n).operands) → Option.Rel κ.SamePadding (l[i]?.bind (r.sees w n))
        (l'[i]?.bind (r'.sees w' n')) := by
    intro l l' hl
    induction hl generalizing i with
    | nil => exact fun _ => .none
    | cons hab hl ih =>
      intro hmem
      cases i with
      | zero => exact h.sees hnode hreads (hmem _ (by simp)) hab
      | succ i => exact ih i fun a ha => hmem a (by simp [ha])
  exact hoperand hnode.operands fun a ha => ha

theorem Consistent.compared (h : κ.Consistent engine w w')
    (hnode : κ.SameNode (w.node n) (w'.node n')) (hreads : κ.SameReads w n n' r r')
    (mode : CompareMode) :
    Option.Rel κ.SameContent ((r.compared w engine n mode).map PaddingValue.content)
      ((r'.compared w' engine n' mode).map PaddingValue.content) := by
  simp only [Run.compared, Option.map_bind]
  refine (h.seesAt hnode hreads 0).bind fun p p' hp => ?_
  simp only [Function.comp_apply, Option.map_bind]
  exact (h.seesAt hnode hreads 1).bind fun q q' hq =>
    hp.comparePadding h.unique hq engine.platform mode

theorem Consistent.condition? (h : κ.Consistent engine w w')
    (hnode : κ.SameNode (w.node n) (w'.node n')) (hop : (w'.node n').op = (w.node n).op)
    (hreads : κ.SameReads w n n' r r') :
    Option.Rel κ.SameContent (r.condition? w engine n) (r'.condition? w' engine n') := by
  rw [Run.condition?, Run.condition?, hop]
  split
  · exact (h.seesAt hnode hreads 0).map fun _ _ hp => hp.content
  · exact h.compared hnode hreads _
  · exact .none

/-- What an input holds by convention is the same in both graphs. -/
theorem Consistent.simulatePlaceholder (h : κ.Consistent engine w w') {x x' : Node}
    (hdtype : x.dtype = x'.dtype) :
    κ.SameAnswer (RunM.simulatePlaceholder engine x none)
      (RunM.simulatePlaceholder engine x' none) := by
  rw [RunM.simulatePlaceholder, RunM.simulatePlaceholder, hdtype]
  cases hp : engine.inputPadding with
  | none =>
    cases Scalar.zero x'.dtype with
    | error e => exact .none
    | ok v => exact .some (.exact v)
  | some p =>
    have hsame := h.inputs p hp
    dsimp only
    split
    · rename_i v _
      cases v.convert x'.dtype with
      | error e => exact .none
      | ok u => exact .some (.exact u)
    · exact .some hsame

theorem SameNode.exists_input {m m' : Node} (h : κ.SameNode m m') {x : NodeRef}
    (hx : x ∈ m.inputs) :
    ∃ x' ∈ m'.inputs, κ.nodes x x' := by
  have hinputs : ∀ {l l' : List Operand}, List.Forall₂ κ.SameOperand l l' →
      x ∈ l.filterMap Operand.node? → ∃ x' ∈ l'.filterMap Operand.node?, κ.nodes x x' := by
    intro l l' hl
    induction hl with
    | nil => simp
    | cons hab _ ih =>
      intro hmem
      cases hab with
      | @node y y' hy =>
        rcases List.mem_cons.1 hmem with rfl | hmem
        · exact ⟨y', List.mem_cons_self, hy⟩
        · obtain ⟨x', hx', hxx'⟩ := ih hmem
          exact ⟨x', List.mem_cons_of_mem _ hx', hxx'⟩
      | scalar v => exact ih hmem
      | symbol name d => exact ih hmem
  exact hinputs h.operands hx

/-- Inputs stand for inputs. -/
theorem Consistent.mem_inputs (h : κ.Consistent engine w w') {m m' : Node} (hm : κ.SameNode m m')
    {x x' : NodeRef} (hx : x ∈ m.inputs) (hxx' : κ.nodes x x') : x' ∈ m'.inputs := by
  obtain ⟨y, hy, hxy⟩ := hm.exists_input hx
  exact h.unique.2 hxy hxx' ▸ hy

theorem SameOp.eq_of_kind_ne {op op' : Op} (h : κ.SameOp op op') (hkind : op.kind ≠ .placeholder) :
    op = op' := by
  cases h with
  | input => exact absurd rfl hkind
  | declared => exact absurd rfl hkind
  | other => rfl

theorem SameOp.isPointwise_eq {op op' : Op} (h : κ.SameOp op op') :
    op.isPointwise = op'.isPointwise := by
  cases h <;> rfl

/-- The first operand of a reduction. -/
theorem Consistent.reduced (h : κ.Consistent engine w w')
    (hnode : κ.SameNode (w.node n) (w'.node n')) {x : NodeRef}
    (hx : (w.node n).operands = [.node x]) :
    ∃ x', (w'.node n').operands = [.node x'] ∧ κ.nodes x x' ∧ (w.node x).axes = (w'.node x').axes ∧
      (w.node x).dtype = (w'.node x').dtype := by
  have hoperands := hnode.operands
  rw [hx] at hoperands
  obtain ⟨a', l', hsame, hnil, heq⟩ := List.forall₂_cons_left_iff.1 hoperands
  obtain rfl := List.forall₂_nil_left_iff.1 hnil
  cases hsame with
  | @node _ x' hxx' => exact ⟨x', heq, hxx', (h.same x x' hxx').axes, (h.same x x' hxx').dtype⟩

/-- Whether a node reads what its operands offer is the same in both graphs. -/
theorem Consistent.real (h : κ.Consistent engine w w') (hnode : κ.SameNode (w.node n) (w'.node n'))
    (hreal : (w.node n).op.isPointwise = true ∨ w.ReducesReal n) :
    (w'.node n').op.isPointwise = true ∨ w'.ReducesReal n' := by
  rcases hreal with hpoint | ⟨fn, axes, keep, x, hop, hx, hempty⟩
  · exact .inl (hnode.op.isPointwise_eq ▸ hpoint)
  · obtain ⟨x', hx', -, haxes, -⟩ := h.reduced hnode hx
    refine .inr ⟨fn, axes, keep, x',
      (hnode.op.eq_of_kind_ne (by simp [hop, Op.kind])).symm.trans hop, hx', ?_⟩
    rwa [Node.paddedAxes, Node.rank, ← haxes]

theorem Consistent.infer_reduce (h : κ.Consistent engine w w')
    (hnode : κ.SameNode (w.node n) (w'.node n')) {fn : ReduceFn} {axes : List Nat} {keep : Bool}
    (hop : (w.node n).op = .reduce fn axes keep) (hop' : (w'.node n').op = .reduce fn axes keep)
    {x : NodeRef} (hx : (w.node n).operands = [.node x])
    (hreads : w.ReducesReal n → κ.SameReads w n n' r r') :
    Option.Rel κ.SameContent (r.infer w engine n) (r'.infer w' engine n') := by
  obtain ⟨x', hx', hxx', haxes, hdtype⟩ := h.reduced hnode hx
  have hpadded : (w'.node x').paddedAxes = (w.node x).paddedAxes := by
    rw [Node.paddedAxes, Node.paddedAxes, Node.rank, Node.rank, haxes]
  have hlanes : RunM.reducedLanes (w'.node x') axes = RunM.reducedLanes (w.node x) axes := by
    rw [RunM.reducedLanes, RunM.reducedLanes, haxes]
  simp only [Run.infer, hop, hop', hx, hx', List.getElem?_cons_zero, Option.bind_some,
    Operand.node?, hpadded, hlanes, ← hdtype]
  split
  · rename_i hreal
    have hread := hreads ⟨fn, axes, keep, x, hop, hx, hreal⟩ x
      (by simp [Node.inputs, hx, Operand.node?]) x' hxx'
    exact hread.bind fun p p' hp => hp.reducePadding _ _
  · cases engine.platform.neutral (.reduce fn) (w.node x).dtype with
    | error e => exact .none
    | ok v => exact .some (.exact v)

/-- **Nodes that are the same have the same solution** if they read the same.  A reduction over
padding lanes may read anything. -/
theorem Consistent.infer (h : κ.Consistent engine w w') (hnode : κ.SameNode (w.node n) (w'.node n'))
    (hformed : (w.node n).Formed w n)
    (hreads : (w.node n).op.isPointwise = true ∨ w.ReducesReal n → κ.SameReads w n n' r r') :
    Option.Rel κ.SameContent (r.infer w engine n) (r'.infer w' engine n') := by
  have hpoint : (w.node n).op.isPointwise = true →
      ∀ i, Option.Rel κ.SamePadding (r.seesAt w n i) (r'.seesAt w' n' i) :=
    fun hp => h.seesAt hnode (hreads (.inl hp))
  generalize hop : (w.node n).op = op at hpoint
  generalize hop' : (w'.node n').op = op'
  have hsame : κ.SameOp op op' := hop ▸ hop' ▸ hnode.op
  cases hsame with
  | input =>
    simp only [Run.infer, hop, hop']
    exact h.simulatePlaceholder hnode.dtype
  | declared hp =>
    simp only [Run.infer, hop, hop']
    exact .some hp
  | other hkind =>
    have hcond : op.isPointwise = true →
        Option.Rel κ.SameContent (r.condition? w engine n) (r'.condition? w' engine n') := by
      intro hp
      exact h.condition? hnode (by rw [hop, hop']) (hreads (.inl (by rwa [hop])))
    cases op
    case reduce fn axes keep =>
      obtain ⟨x, hx, -⟩ := hformed.reduces fn axes keep hop
      exact h.infer_reduce hnode hop hop' hx fun hreal => hreads (.inr hreal)
    all_goals simp only [Run.infer, hop, hop']
    case placeholder declared => exact absurd rfl hkind
    case constant v => exact .some (.exact v)
    case unary fn => exact (hpoint rfl 0).bind fun p p' hp => hnode.dtype ▸ hp.unaryPadding _ _
    case cast => exact (hpoint rfl 0).bind fun p p' hp => hnode.dtype ▸ hp.unaryPadding _ _
    case binary fn =>
      exact (hpoint rfl 0).bind fun p p' hp => (hpoint rfl 1).bind fun q q' hq =>
        hp.binaryPadding hq _ _
    case broadcast => exact (hpoint rfl 0).map fun _ _ hp => hp.content
    case compare mode => exact h.compared hnode (hreads (.inl (by rw [hop]; rfl))) mode
    case select =>
      exact (hcond rfl).bind fun k k' hk =>
        selectContent_same h.unique hk (hpoint rfl 1) (hpoint rfl 2)
    case cmpSel mode =>
      exact (hcond rfl).bind fun k k' hk =>
        selectContent_same h.unique hk (hpoint rfl 2) (hpoint rfl 3)
    case invalid | unknown => exact .none

end
end Correspondence
end LanePadding
