import LanePadding.Proofs.Outcome
import LanePadding.Proofs.ReducedLanes
import LanePadding.Proofs.Transfer

/-!
# Executing graphs lane by lane

An analysis speaks about values that exist only when a graph is executed.  Here an execution is an
assignment of a scalar to every stored lane of every node that solves the equations of the operators
(`Machine.Executes`).  Nothing is said about the order in which lanes are computed, and reductions
are any functions of the lanes that they combine.

A graph is executed in two ways.  On the machine with padding (`Analysis.machine`) tensors are
stored with all their lanes, and a consumer finds in padding lanes the constant that the analysis
has written for it.  The machine without padding (`Workspace.machine`) stores only real lanes.

## What is here

* `Machine`, `Machine.Executes` — executions.
* `Workspace.CountsLanes` — no sum or product has more lanes than a 64-bit integer counts.
* `Analysis.Admissible` — what is assumed of an execution with padding: inputs hold what they
  declare, and real data, with what is made of it, are numbers within the limits of the platform.
* `Analysis.Admissible.seen_equal`, `Analysis.Admissible.seen_inRange` — what a consumer finds in a
  lane is described by what the analysis says it reads.
* `Analysis.Admissible.found` — so are the values of operands in the padding lanes of a consumer.
-/

set_option autoImplicit false

namespace LanePadding

/-! ## Executions -/

/-- The values of all lanes. -/
abbrev Values : Type := NodeRef → Lane → Scalar

/-- How lanes are stored and read, and what is not fixed by the graph. -/
structure Machine where
  /-- The axes that a tensor is stored with. -/
  shape : NodeRef → List Axis
  /-- The constant that a consumer finds in the padding lanes of a tensor; none if it finds what the
  tensor holds. -/
  fill : (consumer tensor : NodeRef) → Option Scalar
  /-- What a node makes of the lanes that it reduces. -/
  reduction : NodeRef → List Scalar → Scalar
  symbol : String → DType → Scalar

namespace Machine

section

variable (m : Machine) (w : Workspace) (value : Values)

/-- What the consumer `c` finds in a lane of the tensor `x`. -/
def seen (c x : NodeRef) (l : Lane) : Scalar :=
  if Lane.Real (m.shape x) l then value x l else (m.fill c x).getD (value x l)

/-- The value of an operand of the node `n` in its lane `l`. -/
def argument (n : NodeRef) (l : Lane) : Operand → Scalar
  | .scalar v => v
  | .symbol name d => m.symbol name d
  | .node x => m.seen value n x (Lane.source (m.shape x) (m.shape n) l)

/-- The value of the operand at a position. -/
def argument? (n : NodeRef) (l : Lane) (i : Nat) : Option Scalar :=
  (w.node n).operands[i]?.map (m.argument value n l)

/-- The lanes that a reduction `n` of the tensor `x` combines into its lane `l`. -/
def combined (n x : NodeRef) (axes : List Nat) (keep : Bool) (l : Lane) : List Scalar :=
  (Lane.into (m.shape x) axes keep l).map (m.seen value n x)

/-- The lane `l` of the node `n` holds what its operator computes.  Inputs hold anything. -/
def Computes (n : NodeRef) (l : Lane) : Prop :=
  match (w.node n).op with
  | .constant v => value n l = v
  | .unary _ | .cast => ∃ a ∈ m.argument? w value n l 0,
      Scalar.evalUnary (w.node n).op.kind a (w.node n).dtype = .ok (value n l)
  | .binary fn => ∃ a ∈ m.argument? w value n l 0, ∃ b ∈ m.argument? w value n l 1,
      Scalar.evalBinary (.binary fn) a b = .ok (value n l)
  | .broadcast => m.argument? w value n l 0 = some (value n l)
  | .reduce _ axes keep => ∃ x ∈ (w.node n).operands[0]?.bind Operand.node?,
      value n l = m.reduction n (m.combined value n x axes keep l)
  | .compare mode => ∃ a ∈ m.argument? w value n l 0, ∃ b ∈ m.argument? w value n l 1,
      (Scalar.evalCompare mode a b).map .ofBool = .ok (value n l)
  | .select => ∃ k ∈ m.argument? w value n l 0, ∃ t ∈ m.argument? w value n l 1,
      ∃ f ∈ m.argument? w value n l 2, value n l = if k.value.isZero then f else t
  | .cmpSel mode => ∃ a ∈ m.argument? w value n l 0, ∃ b ∈ m.argument? w value n l 1,
      ∃ t ∈ m.argument? w value n l 2, ∃ f ∈ m.argument? w value n l 3,
      (Scalar.evalCompare mode a b).map (fun k => if k then t else f) = .ok (value n l)
  | _ => True

instance (n : NodeRef) (l : Lane) : Decidable (m.Computes w value n l) := by
  delta Computes
  split <;> infer_instance

/-- All stored lanes of the nodes hold what the operators compute. -/
def Executes (nodes : List NodeRef) : Prop :=
  ∀ n ∈ nodes, ∀ l, Lane.Stored (m.shape n) l → m.Computes w value n l

/-- There are only so many lanes to look at. -/
theorem executes_of_all {nodes : List NodeRef}
    (h : ∀ n ∈ nodes, ∀ l ∈ Lane.all (m.shape n), m.Computes w value n l) :
    m.Executes w value nodes :=
  fun n hn l hl => h n hn l (Lane.mem_all.2 hl)

end

/-- A reduction of as many equal scalars as it combines is one step of the analysis:
`evalReduceRepeated` of their number. -/
def Repeats (m : Machine) (w : Workspace) (nodes : List NodeRef) : Prop :=
  ∀ n ∈ nodes, ∀ fn axes keep x, (w.node n).op = .reduce fn axes keep →
    (w.node n).operands = [.node x] → ∀ xs v u, xs.length = Lane.reducedCount axes 0 (m.shape x) →
    (∀ s ∈ xs, s.equal v = true) → Scalar.evalReduceRepeated (.reduce fn) v xs.length = .ok u →
    (m.reduction n xs).equal u = true

end Machine

/-! ## Counting lanes -/

/-- Sums and products combine fewer than `2^63` lanes.  The analysis counts them in 64-bit integers,
and the number of lanes of a tensor is not limited. -/
def Workspace.CountsLanes (w : Workspace) (nodes : List NodeRef) : Prop :=
  ∀ n ∈ nodes, ∀ fn axes keep x, (w.node n).op = .reduce fn axes keep →
    (w.node n).operands = [.node x] → fn = .sum ∨ fn = .prod →
    Lane.reducedCount axes 0 (w.node x).axes < Text.int64End

theorem Text.wrap_of_lt {n : Nat} (h : n < int64End) : wrap n = n := by
  rw [int64End] at h
  exact Int.bmod_eq_of_le (by omega) (by omega)

/-- Maxima and minima are not counted, and other reductions have few lanes. -/
theorem Workspace.CountsLanes.evalReduceRepeated_wrap {w : Workspace} {nodes : List NodeRef}
    (h : w.CountsLanes nodes) {n x : NodeRef} (hn : n ∈ nodes) {fn : ReduceFn}
    {axes : List Nat} {keep : Bool} (hop : (w.node n).op = .reduce fn axes keep)
    (hx : (w.node n).operands = [.node x]) (v : Scalar) :
    Scalar.evalReduceRepeated (.reduce fn) v
      (Text.wrap (Lane.reducedCount axes 0 (w.node x).axes)) =
        Scalar.evalReduceRepeated (.reduce fn) v (Lane.reducedCount axes 0 (w.node x).axes) := by
  have hcount := h n hn fn axes keep x hop hx
  cases fn with
  | sum => rw [Text.wrap_of_lt (hcount (.inl rfl))]
  | prod => rw [Text.wrap_of_lt (hcount (.inr rfl))]
  | max => simp only [Scalar.evalReduceRepeated]
  | min => simp only [Scalar.evalReduceRepeated]

/-! ## Executions with padding -/

namespace Analysis

/-- The machine with padding: consumers find the constants that the analysis writes for them. -/
def machine (a : Analysis) (w : Workspace) (reduction : NodeRef → List Scalar → Scalar)
    (symbol : String → DType → Scalar) : Machine where
  shape n := (w.node n).axes
  fill c x := fillFor (a.settings x) (some c)
  reduction := reduction
  symbol := symbol

variable (a : Analysis) (w : Workspace) (p : Platform) (reduction : NodeRef → List Scalar → Scalar)
  (symbol : String → DType → Scalar) (value : Values)

/-- What is assumed of an execution with padding. -/
structure Admissible : Prop where
  executes : (a.machine w reduction symbol).Executes w value a.nodes
  repeats : (a.machine w reduction symbol).Repeats w a.nodes
  /-- Inputs hold what the analysis takes them to hold. -/
  inputs : ∀ n ∈ a.nodes, ∀ declared, (w.node n).op = .placeholder declared →
    ∀ q v, a.padding? n = some q → q.content = .exact v →
    ∀ l, Lane.Padding (w.node n).axes l → (value n l).equal v = true
  /-- Real data is within the limits of the platform. -/
  real : ∀ n ∈ a.nodes, ∀ l, Lane.Real (w.node n).axes l → p.InRange (value n l)
  /-- So are padding lanes that the analysis takes to be computed from real data. -/
  dependent : ∀ n ∈ a.nodes, ∀ q e, a.padding? n = some q → q.content = .dependent e →
    ∀ l, Lane.Padding (w.node n).axes l → p.InRange (value n l)
  /-- Other padding lanes hold any numbers. -/
  unconstrained : ∀ n ∈ a.nodes, ∀ q, a.padding? n = some q → q.content = .unconstrained →
    ∀ l, Lane.Padding (w.node n).axes l → (value n l).value.isNaN = false
  symbols : ∀ n ∈ a.nodes, ∀ name d, .symbol name d ∈ (w.node n).operands →
    p.InRange (symbol name d)

/-- Where the tensor's own padding value is exact, all padding lanes hold it. -/
def HoldsExactly (x : NodeRef) : Prop :=
  ∀ q v, a.padding? x = some q → q.content = .exact v →
    ∀ l, Lane.Padding (w.node x).axes l → (value x l).equal v = true

end Analysis

/-! ## What consumers find -/

namespace Analysis.Admissible

variable {a : Analysis} {w : Workspace} {p : Platform} {reduction : NodeRef → List Scalar → Scalar}
  {symbol : String → DType → Scalar} {value : Values} {roots : List NodeRef}
    {c x : NodeRef} {l : Lane}
  {q : PaddingValue} {v : Scalar}

/-- A consumer reads the constant that it finds in padding lanes, or else the tensor's own padding
value. -/
theorem read_eq_fill (hx : x.graph = a.graph) :
    a.run.read x (some c) =
      match fillFor (a.settings x) (some c) with
      | some u => some ⟨.exact u, some x, []⟩
      | none => a.padding? x := by
  have hsettings : a.settings x = (a.run.entry x).settings := if_pos hx
  have hpadding : a.padding? x = (a.run.entry x).padding := if_pos hx
  rw [hsettings, hpadding]
  exact Entry.read_eq ..

theorem seen_machine :
    (a.machine w reduction symbol).seen value c x l =
      if Lane.Real (w.node x).axes l then value x l else (fillFor (a.settings x) (some c)).getD
        (value x l) :=
  rfl

/-- What a consumer finds in padding lanes is the scalar that it reads. -/
theorem seen_equal (hx : x.graph = a.graph) (hholds : a.HoldsExactly w value x)
    (hread : a.run.read x (some c) = some q) (hq : q.content = .exact v)
    (hl : Lane.Padding (w.node x).axes l) :
    ((a.machine w reduction symbol).seen value c x l).equal v = true := by
  rw [read_eq_fill hx] at hread
  rw [seen_machine, if_neg hl.2]
  cases hfill : fillFor (a.settings x) (some c) with
  | some u =>
    rw [hfill] at hread
    obtain rfl := Option.some.inj hread
    obtain rfl := Content.exact.inj hq
    exact Scalar.equal_refl u
  | none =>
    rw [hfill] at hread
    exact hholds q v hread hq l hl

/-- A consumer that reads no scalar finds what the tensor holds. -/
theorem seen_of_not_exact {P : Scalar → Prop} (hx : x.graph = a.graph)
    (hread : a.run.read x (some c) = some q) (hq : ∀ v, q.content ≠ .exact v)
    (hreal : ∀ l, Lane.Real (w.node x).axes l → P (value x l))
    (hpadding : a.padding? x = some q → ∀ l, Lane.Padding (w.node x).axes l → P (value x l))
    (hl : Lane.Stored (w.node x).axes l) : P ((a.machine w reduction symbol).seen value c x l) := by
  rw [read_eq_fill hx] at hread
  rw [seen_machine]
  split
  · rename_i hlane
    exact hreal l hlane
  · rename_i hlane
    cases hfill : fillFor (a.settings x) (some c) with
    | some u =>
      rw [hfill] at hread
      obtain rfl := Option.some.inj hread
      exact absurd rfl (hq u)
    | none =>
      rw [hfill] at hread
      exact hpadding hread l ⟨hl, hlane⟩

/-- What a consumer finds is within the limits if it reads what real data was made into. -/
theorem seen_inRange (h : a.Admissible w p reduction symbol value) (hx : x ∈ a.nodes)
    (hgraph : x.graph = a.graph) (hread : a.run.read x (some c) = some q) {e : Option PositionExpr}
    (hq : q.content = .dependent e) (hl : Lane.Stored (w.node x).axes l) :
    p.InRange ((a.machine w reduction symbol).seen value c x l) :=
  seen_of_not_exact hgraph hread (by simp [hq]) (h.real x hx)
    (fun hpadding => h.dependent x hx q e hpadding hq) hl

/-- What a pointwise consumer finds in an operand, in one of its padding lanes. -/
structure Found (a : Analysis) (w : Workspace) (p : Platform) (n : NodeRef) (o : Operand)
    (q : PaddingValue) (s : Scalar) : Prop where
  describes : q.Describes p s
  /-- The very scalar that is known, or else what the operand holds in its own padding lanes. -/
  known : ∀ v, q.content = .exact v → s = v ∨ ∃ x q', o = .node x ∧
    (w.node n).readsOwnPadding (w.node x) = true ∧ a.run.read x (some n) = some q' ∧
    q'.content = .exact v
  /-- Unconstrained lanes with an origin are those of the operand itself. -/
  own : q.content = .unconstrained → ∀ x, q.origin = some x → o = .node x ∧ s.value.isNaN = false

/-- A reading of padding lanes that is unconstrained is the tensor's own padding value. -/
theorem origin_of_unconstrained (hx : x.graph = a.graph)
    (horigin : ∀ q, a.padding? x = some q → q.origin = some x)
    (hread : a.run.read x (some c) = some q) (hq : q.content = .unconstrained) :
    q.origin = some x := by
  rw [read_eq_fill hx] at hread
  cases hfill : fillFor (a.settings x) (some c) with
  | some u =>
    rw [hfill] at hread
    obtain rfl := Option.some.inj hread
    exact absurd hq (by simp)
  | none =>
    rw [hfill] at hread
    exact horigin q hread

/-- A padding lane of the operand itself. -/
theorem found_padding (h : a.Admissible w p reduction symbol value) (hx : x ∈ a.nodes)
    (hgraph : x.graph = a.graph) (hholds : a.HoldsExactly w value x)
    (horigin : ∀ q, a.padding? x = some q → q.origin = some x)
    (hreads : (w.node c).readsOwnPadding (w.node x) = true)
    (hread : a.run.read x (some c) = some q) (hl : Lane.Padding (w.node x).axes l) :
    Found a w p c (.node x) q.clone ((a.machine w reduction symbol).seen value c x l) where
  describes := by
    rw [PaddingValue.Describes]
    cases hq : q.clone.content with
    | exact v => exact seen_equal hgraph hholds hread hq hl
    | dependent e => exact seen_inRange h hx hgraph hread hq hl.1
    | unconstrained => trivial
    | unknown code => trivial
  known v hv := .inr ⟨x, q, rfl, hreads, hread, hv⟩
  own hq y hy := by
    have hcontent : q.content = .unconstrained := hq
    have horigin' : q.origin = some y := hy
    rw [origin_of_unconstrained hgraph horigin hread hcontent] at horigin'
    refine ⟨by rw [Option.some.inj horigin'], ?_⟩
    exact seen_of_not_exact (P := fun s => s.value.isNaN = false) hgraph hread (by simp [hcontent])
      (fun l hlane => (h.real x hx l hlane).notNaN)
      (fun hpadding => h.unconstrained x hx q hpadding hcontent) hl.1

/-- A lane of the operand that may be a real one or a padding lane. -/
theorem found_meetData (h : a.Admissible w p reduction symbol value) (hx : x ∈ a.nodes)
    (hgraph : x.graph = a.graph) (hread : a.run.read x (some c) = some q)
    (hl : Lane.Stored (w.node x).axes l) :
    Found a w p c (.node x) q.meetData ((a.machine w reduction symbol).seen value c x l) := by
  rw [PaddingValue.meetData]
  cases hq : q.content with
  | dependent e =>
    refine ⟨seen_inRange h hx hgraph hread hq hl, ?_, ?_⟩
    · simp [PaddingValue.dependent, PaddingValue.ofContent]
    · simp [PaddingValue.dependent, PaddingValue.ofContent]
  | _ =>
    refine ⟨trivial, ?_, ?_⟩
    · simp [PaddingValue.unconstrained, PaddingValue.ofContent]
    · simp [PaddingValue.unconstrained, PaddingValue.ofContent]

/-- A real lane of the operand. -/
theorem found_real (h : a.Admissible w p reduction symbol value) (hx : x ∈ a.nodes)
    (hl : Lane.Real (w.node x).axes l) (e : Option PositionExpr) :
    Found a w p c (.node x) (.ofContent (.dependent e))
      ((a.machine w reduction symbol).seen value c x l) := by
  rw [seen_machine, if_pos hl]
  exact ⟨h.real x hx l hl, by simp [PaddingValue.ofContent], by simp [PaddingValue.ofContent]⟩

/-- **What operands hold in the padding lanes of a consumer** is described by what the analysis sees
there. -/
theorem found (h : a.Admissible w p reduction symbol value) (hw : w.WellFormed)
    (hlists : w.Lists a.graph roots a.nodes) {n : NodeRef} (hn : n ∈ a.nodes)
    (hpoint : (w.node n).op.isPointwise = true)
    (hholds : ∀ x ∈ (w.node n).inputs, a.HoldsExactly w value x)
    (horigin : ∀ x ∈ (w.node n).inputs, ∀ q, a.padding? x = some q → q.origin = some x)
    (hl : Lane.Padding (w.node n).axes l) {o : Operand} (ho : o ∈ (w.node n).operands)
    (hsees : a.run.sees w n o = some q) :
    Found a w p n o q ((a.machine w reduction symbol).argument value n l o) := by
  cases o with
  | scalar u =>
    obtain rfl := Option.some.inj hsees
    refine ⟨Scalar.equal_refl u, fun v hv => .inl (Content.exact.inj hv), ?_⟩
    simp [PaddingValue.exact, PaddingValue.ofContent]
  | symbol name d =>
    obtain rfl := Option.some.inj hsees
    refine ⟨h.symbols n hn name d ho, ?_, ?_⟩
    · simp [PaddingValue.dependent, PaddingValue.ofContent]
    · simp [PaddingValue.dependent, PaddingValue.ofContent]
  | node x =>
    have hinput : x ∈ (w.node n).inputs := List.mem_filterMap.2 ⟨_, ho, rfl⟩
    have hx := hlists.inputs n hn x hinput
    have hgraph := (hlists.has x hx).1
    have hreads := (hw n (hlists.has n hn).2).reads hpoint x hinput
    have hvalidn := (hw n (hlists.has n hn).2).valid
    have hvalidx := (hw x (hlists.has x hx).2).valid
    have hstored := hreads.stored_source hvalidx hl.1
    change Found a w p n (.node x) q ((a.machine w reduction symbol).seen value n x
      (Lane.source (w.node x).axes (w.node n).axes l))
    rw [Run.sees] at hsees
    by_cases hinto : ((w.node n).axesIntoPadding (w.node x)).isEmpty = true
    · rw [if_pos hinto] at hsees
      obtain ⟨q', hread, rfl⟩ := Option.map_eq_some_iff.1 hsees
      have hpadding := hreads.padding_source hvalidn hinto hl
      exact found_padding h hx hgraph (hholds x hinput) (horigin x hinput)
        (hreads.readsOwnPadding_of_padding hvalidx hl.1 hpadding) hread ⟨hstored, hpadding⟩
    · rw [if_neg hinto] at hsees
      by_cases hpads : (w.node n).paddingReadsPadding (w.node x) = true
      · rw [if_pos hpads] at hsees
        obtain ⟨q', hread, rfl⟩ := Option.map_eq_some_iff.1 hsees
        exact found_meetData h hx hgraph hread hstored
      · rw [if_neg hpads] at hsees
        obtain rfl := Option.some.inj hsees
        exact found_real h hx
          (hreads.real_source_of_replicated hvalidx (by simpa using hpads) hl.1) _

end Analysis.Admissible
end LanePadding
