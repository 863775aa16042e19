import LanePadding.Analysis.Basic
import LanePadding.Proofs.Reachable
import LanePadding.Proofs.Securing

/-!
# The invariant of an analysis

Nodes are simulated in the order of the graph, so there are always the nodes that are done and the
rest.  Two things hold between any two steps.  The state is coherent with what is done
(`Run.Coherent`): nothing is recorded on tensors that are not simulated yet, and only simulated
consumers have demanded anything, except for fills that make a tensor safe.  And every node that is
done is settled (`Run.Settled`): its padding value solves its equation, its consumers read safe
values, and it has demanded what it needs.

What is settled stays settled although others go on to write into the same tensors.  A later
consumer never changes what an earlier one reads: it is another reader of the tensor, so what it
demands is targeted (`Run.Coherent.one_lt_readers`), and whoever was noted keeps reading the same
(`Run.Settled.congr`).

## What is here

* `Run.Coherent.step`, `Run.Stepped.settled`, `Run.Settled.step` — one step: the state stays
  coherent, the node that is simulated gets settled, and the nodes before it stay so.
* `Run.simulateFrom_induction`, `Run.simulateFrom_spec` — a whole run.
-/

set_option autoImplicit false

namespace LanePadding

/-- The node is a reduction over real lanes only. -/
def Workspace.ReducesReal (w : Workspace) (n : NodeRef) : Prop :=
  ∃ fn axes keep x, (w.node n).op = .reduce fn axes keep ∧ (w.node n).operands = [.node x] ∧
    ((w.node x).paddedAxes.filter (· ∈ axes)).isEmpty = true

/-- A node with inputs that is not pointwise is a reduction. -/
theorem Node.Formed.exists_reduce {w : Workspace} {n x : NodeRef} (h : (w.node n).Formed w n)
    (hx : x ∈ (w.node n).inputs) (hpoint : ¬(w.node n).op.isPointwise = true) :
    ∃ fn axes keep, (w.node n).op = .reduce fn axes keep ∧ (w.node n).operands = [.node x] := by
  have harity := h.arity
  cases hop : (w.node n).op with
  | reduce fn axes keep =>
    obtain ⟨y, hy, -⟩ := h.reduces fn axes keep hop
    obtain rfl : x = y := by simpa [inputs, hy, Operand.node?] using hx
    exact ⟨fn, axes, keep, rfl, hy⟩
  | placeholder _ | constant _ =>
    rw [hop] at harity
    have hnil : (w.node n).operands = [] := List.length_eq_zero_iff.1 (Option.some.inj harity).symm
    simp [inputs, hnil] at hx
  | invalid | unknown _ => simp [hop, Op.kind, OpKind.arity?] at harity
  | _ => simp [hop, Op.isPointwise] at hpoint

namespace Run

/-! ## Readings of one node -/

/-- The node reads the same from all its inputs, up to the consumers that rely on it. -/
def SameFor (w : Workspace) (n : NodeRef) (r r' : Run) : Prop :=
  ∀ x ∈ (w.node n).inputs,
    (r'.read x (some n)).map PaddingValue.clone = (r.read x (some n)).map PaddingValue.clone

section SameFor

variable {w : Workspace} {engine : Engine} {n : NodeRef} {r r' : Run}

theorem SameFor.seesAt_eq (h : SameFor w n r r') (i : Nat) : r'.seesAt w n i = r.seesAt w n i := by
  unfold seesAt
  cases ha : (w.node n).operands[i]? with
  | none => rfl
  | some a =>
    cases a with
    | scalar v => rfl
    | symbol name d => rfl
    | node x =>
      have hread := h x (List.mem_filterMap.2 ⟨_, List.mem_of_getElem? ha, rfl⟩)
      rw [Option.bind_some, Option.bind_some, sees, sees, map_meetData,
        map_meetData (r.read x (some n)), hread]

theorem SameFor.compared_eq (h : SameFor w n r r') (mode : CompareMode) :
    r'.compared w engine n mode = r.compared w engine n mode := by
  rw [compared, compared, h.seesAt_eq, h.seesAt_eq]

theorem SameFor.condition?_eq (h : SameFor w n r r') :
    r'.condition? w engine n = r.condition? w engine n := by
  unfold condition?
  split
  · rw [h.seesAt_eq]
  · rw [h.compared_eq]
  · rfl

theorem SameFor.viewedOperands_eq (h : SameFor w n r r') :
    r'.viewedOperands w engine n = r.viewedOperands w engine n := by
  unfold viewedOperands
  rw [h.condition?_eq]

theorem SameFor.resolvedOperands_eq (h : SameFor w n r r') :
    r'.resolvedOperands w engine n = r.resolvedOperands w engine n := by
  unfold resolvedOperands
  rw [h.condition?_eq]

/-- The equation of a node is about what the node reads. -/
theorem SameFor.infer_eq (h : SameFor w n r r') : r'.infer w engine n = r.infer w engine n := by
  have hreduce : ∀ (x : NodeRef), x ∈ (w.node n).inputs → ∀ (op : OpKind) (count : Int),
      ((r'.read x (some n)).bind fun p =>
        (p.reducePadding op count).toOption.map PaddingValue.content) =
      (r.read x (some n)).bind fun p =>
        (p.reducePadding op count).toOption.map PaddingValue.content := by
    intro x hx op count
    have hclone : ∀ o : Option PaddingValue,
        (o.bind fun p => (p.reducePadding op count).toOption.map PaddingValue.content) =
          (o.map PaddingValue.clone).bind fun p =>
            (p.reducePadding op count).toOption.map PaddingValue.content := by
      intro o
      cases o <;> rfl
    rw [hclone, h x hx, ← hclone]
  unfold infer
  cases hop : (w.node n).op with
  | reduce fn axes keep =>
    dsimp only
    cases hx : (w.node n).operands[0]?.bind Operand.node? with
    | none => rfl
    | some x =>
      obtain ⟨a, ha, hax⟩ := Option.bind_eq_some_iff.1 hx
      have hmem : x ∈ (w.node n).inputs := List.mem_filterMap.2 ⟨a, List.mem_of_getElem? ha, hax⟩
      rw [Option.bind_some, Option.bind_some, hreduce x hmem]
  | _ => simp only [h.seesAt_eq, h.compared_eq, h.condition?_eq]

end SameFor

/-! ## What holds of states -/

section

variable (w : Workspace) (engine : Engine) (g : Nat) (nodes outputs : List NodeRef)

/-- The readers of every node are known. -/
structure Counts (r : Run) : Prop where
  size : r.entries.size = (w.graph g).nodes.size
  consumers : ∀ x, x.graph = g → w.Has x →
    (r.entry x).consumers = nodes.filter fun n => x ∈ (w.node n).inputs
  readers : ∀ x, x.graph = g → w.Has x →
    (r.entry x).readers = (r.entry x).consumers.length + if x ∈ outputs then 1 else 0

/-- The entries fit the graph and each other, after the nodes in `done` were simulated. -/
structure Coherent (done : List NodeRef) (r : Run) : Prop extends Counts w g nodes outputs r where
  /-- Nothing is known about a node before it is simulated. -/
  blank : ∀ x, x.graph = g → w.Has x → x ∉ done →
    (r.entry x).padding = none ∧ (r.entry x).settings = []
  tidy : r.Tidy
  emits : ∀ x, x.graph = g → r.Emits x
  /-- Settings are demanded by simulated consumers, and constants also by consumers that need them
  to be safe. -/
  demanders : ∀ x, x.graph = g → ∀ s ∈ (r.entry x).settings, ∀ c ∈ s.demandedBy,
    c ∈ (r.entry x).consumers ∧
      (c ∈ done ∨ s.constant? ≠ none ∧ (FaultRule.applying? w x c).isSome = true)
  /-- A consumer that is not simulated yet is noted on a tensor exactly if it may fault there. -/
  noted : ∀ x ∈ done, ∀ c ∈ (r.entry x).consumers, c ∉ done →
    ((r.entry x).Notes c ↔ (FaultRule.applying? w x c).isSome = true)
  /-- Copies of lane 0 are for all readers only if there is a single one. -/
  positions : ∀ x, x.graph = g → ∀ s ∈ (r.entry x).settings, s.constant? = none →
    s.demandedBy ≠ [] ∧ (s.targets = [] → (r.entry x).readers ≤ 1)

/-- The consumer finds a value in the padding lanes of `x` that meets the rule. -/
def ReadsSafe (r : Run) (x c : NodeRef) (rule : FaultRule) : Prop :=
  ∃ p v, r.read x (some c) = some p ∧ p.content = .exact v ∧ rule.safe v.value = true

/-- The first setting of the tensor is an unconditional fill that meets all rules, and no other
setting with a constant is unconditional. -/
def FilledFirst (r : Run) (x : NodeRef) : Prop :=
  ∃ v s rest, (r.entry x).settings = s :: rest ∧ s.fill = .constant v ∧ s.targets = [] ∧
    FaultRule.fill? (r.rules w x) (w.node x).dtype (r.rules w x) = .ok (some v) ∧
    ∀ s' ∈ rest, s'.constant? ≠ none → s'.targets ≠ []

/-- The node `n` has something to do with its operand `x`: it reduces its padding lanes, needs
copies of lane 0 there, or resolves it as a branch. -/
def Uses (r : Run) (n x : NodeRef) : Prop :=
  (∃ fn axes keep, (w.node n).op = .reduce fn axes keep ∧
    ((w.node x).paddedAxes.filter (· ∈ axes)).isEmpty = false) ∨
  (w.node n).op.isPointwise = true ∧
    (.node x ∈ r.viewedOperands w engine n ∧ w.laneFix n x ≠ [] ∨
      .node x ∈ r.resolvedOperands w engine n)

/-- What is settled once the node `n` is simulated. -/
structure Settled (r : Run) (n : NodeRef) : Prop where
  /-- Its padding value solves its equation. -/
  holds : ∃ p, (r.entry n).padding = some p ∧ p.origin = some n ∧
    r.infer w engine n = some p.content
  /-- A reduction over padding lanes reads the neutral element there. -/
  neutral : ∀ fn axes keep x, (w.node n).op = .reduce fn axes keep →
    (w.node n).operands = [.node x] → ((w.node x).paddedAxes.filter (· ∈ axes)).isEmpty = false →
    ∃ v q, engine.platform.neutral (.reduce fn) (w.node x).dtype = .ok v ∧
      r.read x (some n) = some q ∧ q.isExact v = true
  /-- All consumers read safe values from it. -/
  safe : ∀ c ∈ (r.entry n).consumers, ∀ rule, FaultRule.applying? w n c = some rule →
    r.ReadsSafe n c rule
  filled : r.sensitive w n ≠ [] → ¬r.HoldsSafe w n → r.FilledFirst w n
  /-- It demanded just the copies of lane 0 that the operands it looked at need. -/
  fixed : (w.node n).op.isPointwise = true → ∀ x ∈ (w.node n).inputs, ∀ e,
    (r.Demands n x e ↔
      .node x ∈ r.viewedOperands w engine n ∧ w.laneFix n x ≠ [] ∧ e = w.laneFixExpr n x)
  /-- It is noted just on the operands on which it may fault or with which it has something to
  do. -/
  noted : ∀ x ∈ (w.node n).inputs, ((r.entry x).Notes n ↔
    (FaultRule.applying? w x n).isSome = true ∨ r.Uses w engine n x)

/-- The state in which the content of the node `n` is noted, with nobody relying on it yet. -/
def store (r : Run) (n : NodeRef) (content : Content) : Run :=
  r.modifyEntry n fun e => { e with padding := some ⟨content, some n, []⟩ }

/-- The states that one simulated node leads through: `r₁` before its content is noted, and `r'`
after the node was made safe for its consumers. -/
structure Stepped (n : NodeRef) (r r₁ : Run) (content : Content) (r' : Run) : Prop where
  visits : (RunM.visit w engine n).Yields r () (r₁.store n content)
  grown : Grown w g (some n) (· ∈ (w.node n).inputs) r r₁
  infers : r₁.infer w engine n = some content
  viewed : (w.node n).op.isPointwise = true →
    Viewed w g n (r.viewedOperands w engine n) (r.resolvedOperands w engine n) r r₁
  /-- A reduction over padding lanes relies on the neutral element that it reads, or demands it. -/
  neutral : ∀ fn axes keep x, (w.node n).op = .reduce fn axes keep →
    (w.node n).operands = [.node x] → ((w.node x).paddedAxes.filter (· ∈ axes)).isEmpty = false →
    ∃ v, engine.platform.neutral (.reduce fn) (w.node x).dtype = .ok v ∧
      (∃ q, r₁.read x (some n) = some q ∧ q.isExact v = true) ∧
      ∃ current, r.read x (some n) = some current ∧
        r₁ = if current.isExact v then r.modifyEntry x (fun e => e.rely (some n))
          else r.write (some n) x (.constant v) (decide (1 < (r.entry x).readers))
  /-- A reduction over real lanes demands nothing. -/
  silent : w.ReducesReal n → r₁ = r
  serves : Relation.ReflTransGen (Serve w n) (r₁.store n content) r'
  secured : Secured w n (r₁.store n content) r'

end

section Counts

variable {w : Workspace} {g : Nat} {nodes outputs : List NodeRef} {r r' : Run}

theorem Counts.congr (hr : Counts w g nodes outputs r) (hsize : r'.entries.size = r.entries.size)
    (hconsumers : ∀ x, x.graph = g → (r'.entry x).consumers = (r.entry x).consumers)
    (hreaders : ∀ x, x.graph = g → (r'.entry x).readers = (r.entry x).readers) :
    Counts w g nodes outputs r' where
  size := hsize.trans hr.size
  consumers x hx hhas := by rw [hconsumers x hx, hr.consumers x hx hhas]
  readers x hx hhas := by rw [hreaders x hx, hconsumers x hx, hr.readers x hx hhas]

theorem Counts.index_lt (hr : Counts w g nodes outputs r) {x : NodeRef} (hx : x.graph = g)
    (hhas : w.Has x) :
    x.index < r.entries.size := by
  rw [hr.size, ← hx]
  exact hhas

theorem Grown.counts {c : Option NodeRef} {T : NodeRef → Prop} (h : Grown w g c T r r')
    (hr : Counts w g nodes outputs r) : Counts w g nodes outputs r' :=
  hr.congr h.size (fun x _ => h.consumers x) fun x _ => h.readers x

theorem Counts.mem_consumers (hr : Counts w g nodes outputs r) {x c : NodeRef} (hx : x.graph = g)
    (hhas : w.Has x) : c ∈ (r.entry x).consumers ↔ c ∈ nodes ∧ x ∈ (w.node c).inputs := by
  rw [hr.consumers x hx hhas, List.mem_filter, decide_eq_true_iff]

/-- Two consumers make a tensor a shared one. -/
theorem Counts.one_lt_readers (hr : Counts w g nodes outputs r) {x c c' : NodeRef}
    (hx : x.graph = g) (hhas : w.Has x) (hc : c ∈ (r.entry x).consumers)
    (hc' : c' ∈ (r.entry x).consumers) (hne : c ≠ c') :
    1 < (r.entry x).readers := by
  have hlength : 1 < (r.entry x).consumers.length := by
    match hlist : (r.entry x).consumers with
    | [] => simp [hlist] at hc
    | [a] =>
      simp only [hlist, List.mem_singleton] at hc hc'
      exact absurd (hc.trans hc'.symm) hne
    | a :: b :: rest => simp
  rw [hr.readers x hx hhas]
  omega

/-- An output with consumers is a shared tensor, and none of its consumers is the output itself. -/
theorem Counts.shared (hr : Counts w g nodes outputs r) (hw : w.WellFormed) {root c : NodeRef}
    (hroot : root ∈ outputs) (hgraph : root.graph = g) (hhas : w.Has root)
    (hc : c ∈ (r.entry root).consumers) : 1 < (r.entry root).readers ∧ root ≠ c := by
  refine ⟨?_, ?_⟩
  · rw [hr.readers root hgraph hhas, if_pos hroot]
    have := List.length_pos_of_mem hc
    omega
  · obtain ⟨-, hinput⟩ := (hr.mem_consumers hgraph hhas).1 hc
    rintro rfl
    exact hw.not_mem_inputs hhas hinput

end Counts

theorem entry_store {r : Run} {n : NodeRef} (hsize : n.index < r.entries.size) (content : Content)
    (y : NodeRef) :
    (r.store n content).entry y =
      if n.index = y.index then { r.entry y with padding := some ⟨content, some n, []⟩ }
      else r.entry y :=
  entry_modifyEntry hsize _ y

@[simp] theorem size_store (r : Run) (n : NodeRef) (content : Content) :
    (r.store n content).entries.size = r.entries.size := size_modifyEntry ..

/-! ## One step -/

section Step

variable {w : Workspace} {engine : Engine} {g : Nat}
  {roots nodes outputs done : List NodeRef} {n : NodeRef} {r r' : Run}

/-- What is known of the node that is simulated next. -/
structure Next (w : Workspace) (g : Nat) (nodes done : List NodeRef) (n : NodeRef) : Prop where
  formed : (w.node n).Formed w n
  graph : n.graph = g
  has : w.Has n
  mem : n ∈ nodes
  fresh : n ∉ done
  inputs : ∀ x ∈ (w.node n).inputs, x ∈ done
  /-- All simulated nodes are listed, after their own inputs. -/
  doneHas : ∀ x ∈ done, x.graph = g ∧ w.Has x ∧ x ∈ nodes
  doneInputs : ∀ x ∈ done, ∀ y ∈ (w.node x).inputs, y ∈ done

theorem Next.knows (h : Next w g nodes done n) (hr : Coherent w g nodes outputs done r) :
    r.Knows w g n := by
  intro x hx
  obtain ⟨hgraph, hhas, -⟩ := h.doneHas x (h.inputs x hx)
  exact ⟨hgraph, hr.toCounts.index_lt hgraph hhas⟩

theorem Next.index_lt (h : Next w g nodes done n) (hr : Coherent w g nodes outputs done r) :
    n.index < r.entries.size := hr.toCounts.index_lt h.graph h.has

theorem Next.not_mem_inputs (h : Next w g nodes done n) : n ∉ (w.node n).inputs :=
  fun hn => h.fresh (h.inputs n hn)

/-- Nodes of one graph are told apart by their positions. -/
theorem index_ne {x y : NodeRef} (hx : x.graph = g) (hy : y.graph = g) (hne : x ≠ y) :
    x.index ≠ y.index := fun h => hne (by cases x; cases y; simp_all)

/-- Before a node is simulated, it demands nothing of its inputs, except to be safe. -/
theorem Coherent.fresh (hr : Coherent w g nodes outputs done r) {x : NodeRef} (hx : x.graph = g)
    {s : Setting} (hs : s ∈ (r.entry x).settings) (hn : n ∉ done)
    (hsafe : s.constant? = none ∨ FaultRule.applying? w x n = none) : n ∉ s.demandedBy := by
  intro hmem
  rcases (hr.demanders x hx s hs n hmem).2 with hdone | ⟨hconst, happly⟩
  · exact hn hdone
  · rcases hsafe with hsafe | hsafe
    · exact hconst hsafe
    · simp [hsafe] at happly

theorem Viewed.sameFor {viewed resolved : List Operand} (h : Viewed w g n viewed resolved r r') :
    SameFor w n r r' :=
  fun x _ => h.read_eq x (some n)

/-- A reduction has no rule for its operand. -/
theorem applying?_reduce {fn : ReduceFn} {axes : List Nat} {keep : Bool}
    (hop : (w.node n).op = .reduce fn axes keep) (x : NodeRef) :
    FaultRule.applying? w x n = none := by
  simp only [FaultRule.applying?, FaultRule.of?, hop]
  split <;> rfl

/-- What the simulation of a node leads to, before the node is made safe. -/
theorem simulated (hn : Next w g nodes done n) (hr : Coherent w g nodes outputs done r)
    {p : PaddingValue} {r₁ : Run} (h : (RunM.simulate w engine n).Yields r p r₁) :
    Grown w g (some n) (· ∈ (w.node n).inputs) r r₁ ∧ r₁.infer w engine n = some p.content ∧
      ((w.node n).op.isPointwise = true →
        Viewed w g n (r.viewedOperands w engine n) (r.resolvedOperands w engine n) r r₁) ∧
      ∀ fn axes keep x, (w.node n).op = .reduce fn axes keep → (w.node n).operands = [.node x] →
        (((w.node x).paddedAxes.filter (· ∈ axes)).isEmpty = true → r₁ = r) ∧
        (((w.node x).paddedAxes.filter (· ∈ axes)).isEmpty = false →
          ∃ v, engine.platform.neutral (.reduce fn) (w.node x).dtype = .ok v ∧
            (∃ q, r₁.read x (some n) = some q ∧ q.isExact v = true) ∧
            ∃ current, r.read x (some n) = some current ∧
              r₁ = if current.isExact v then r.modifyEntry x (fun e => e.rely (some n))
                else r.write (some n) x (.constant v) (decide (1 < (r.entry x).readers))) := by
  have hknows := hn.knows hr
  by_cases hpoint : (w.node n).op.isPointwise = true
  · obtain ⟨hviewed, hinfer⟩ := RunM.simulate_pointwise hknows hr.tidy hn.formed.arity hpoint h
    refine ⟨hviewed.grown, hviewed.sameFor.infer_eq.trans hinfer, fun _ => hviewed, ?_⟩
    intro fn axes keep x hop
    simp [hop, Op.isPointwise] at hpoint
  · by_cases hleaf : (w.node n).op.kind.arity? = some 0
    · obtain ⟨rfl, hinfer⟩ := RunM.simulate_leaf hleaf h
      refine ⟨.refl .., hinfer, fun hfalse => absurd hfalse hpoint, ?_⟩
      intro fn axes keep x hop
      simp [hop, Op.kind, OpKind.arity?] at hleaf
    · cases hop : (w.node n).op with
      | reduce fn axes keep =>
        obtain ⟨x, hx, -, -⟩ := hn.formed.reduces fn axes keep hop
        have hmem : x ∈ (w.node n).inputs := by simp [Node.inputs, hx, Operand.node?]
        have hfresh : ∀ s ∈ (r.entry x).settings, s.demanded? (some n) = none := by
          intro s hs
          have hnot := hr.fresh (hknows x hmem).1 hs hn.fresh (.inr (applying?_reduce hop x))
          rw [Setting.demanded?, if_neg]
          rintro ⟨c, hc, hcmem⟩
          exact hnot (Option.some.inj hc ▸ hcmem)
        obtain ⟨hgrown, hinfer, hsilent, hneutral⟩ := RunM.simulate_reduce hknows hop hx hfresh h
        refine ⟨hgrown, hinfer, fun hfalse => absurd hfalse (by simp [Op.isPointwise]), ?_⟩
        intro fn' axes' keep' x' hop' hx'
        obtain ⟨rfl, rfl, rfl⟩ : fn = fn' ∧ axes = axes' ∧ keep = keep' := by simpa using hop'
        obtain rfl : x = x' := by simpa [hx] using hx'
        exact ⟨hsilent, hneutral⟩
      | invalid => exact absurd hn.formed.arity (by simp [hop, Op.kind, OpKind.arity?])
      | unknown code => exact absurd hn.formed.arity (by simp [hop, Op.kind, OpKind.arity?])
      | _ => simp [hop, Op.isPointwise, Op.kind, OpKind.arity?] at hpoint hleaf

theorem stepped_of_yields (hn : Next w g nodes done n) (hr : Coherent w g nodes outputs done r)
    {p : PaddingValue} {r₁ : Run} (hsimulate : (RunM.simulate w engine n).Yields r p r₁)
    (hvisit : (RunM.visit w engine n).Yields r () (r₁.store n p.content)) {u : Unit}
    (hsafe : (RunM.requireSafe w n).Yields (r₁.store n p.content) u r') :
    Stepped w engine g n r r₁ p.content r' := by
  obtain ⟨hgrown, hinfer, hviewed, hreduce⟩ := simulated hn hr hsimulate
  have hsize : n.index < r₁.entries.size := by
    rw [hgrown.size]
    exact hn.index_lt hr
  have hsettings : ((r₁.store n p.content).entry n).settings = [] := by
    rw [entry_store hsize, if_pos rfl, hgrown.untouched n hn.graph hn.not_mem_inputs]
    exact (hr.blank n hn.graph hn.has hn.fresh).2
  constructor
  case visits => exact hvisit
  case grown => exact hgrown
  case infers => exact hinfer
  case viewed => exact hviewed
  case neutral => exact fun fn axes keep x hop hx => (hreduce fn axes keep x hop hx).2
  case silent =>
    exact fun ⟨fn, axes, keep, x, hop, hx, hreal⟩ => (hreduce fn axes keep x hop hx).1 hreal
  case serves => exact RunM.serves_of_requireSafe (by rwa [size_store]) hsettings hsafe
  case secured => exact RunM.requireSafe_spec (by rwa [size_store]) hsettings hsafe

/-- A visit simulates the node and notes the content, which must be of the node's element type. -/
theorem yields_visit {u : Unit} :
    (RunM.visit w engine n).Yields r u r' ↔ ∃ p r₁, (RunM.simulate w engine n).Yields r p r₁ ∧
      (∀ v, p.content = .exact v → v.dtype = (w.node n).dtype) ∧ r' = r₁.store n p.content := by
  simp only [RunM.visit, RunM.yields_bind]
  refine exists_congr fun p => exists_congr fun r₁ => and_congr_right fun _ => ?_
  cases hp : p.content <;> simp only [RunM.yields_modify, RunM.yields_guard] <;> simp [store]

/-- **What one step does.** -/
theorem exists_stepped (hn : Next w g nodes done n)
    (hr : Coherent w g nodes outputs done r) {u : Unit} (h : (engine.step w n).Yields r u r') :
    ∃ r₁ content, Stepped w engine g n r r₁ content r' := by
  obtain ⟨_, r₂, hvisit, hsafe⟩ := RunM.yields_bind.1 h
  obtain ⟨p, r₁, hsimulate, -, rfl⟩ := yields_visit.1 hvisit
  exact ⟨r₁, p.content, stepped_of_yields hn hr hsimulate hvisit hsafe⟩

/-! ### Entries after a step -/

variable {r₁ : Run} {content : Content}

/-- The settings of a node right after it was simulated. -/
def FirstSettings (w : Workspace) (r : Run) (n : NodeRef) (settings : List Setting) : Prop :=
  settings = [] ∨ ∃ s v, settings = [s] ∧ s.fill = .constant v ∧ s.targets = [] ∧
    ∀ c, c ∈ s.demandedBy ↔ c ∈ r.sensitive w n

theorem Stepped.entry_of_index_ne (h : Stepped w engine g n r r₁ content r')
    (hsize : n.index < r₁.entries.size) {y : NodeRef} (hy : n.index ≠ y.index) :
    r'.entry y = r₁.entry y := by
  have hstored : (r₁.store n content).entry y = r₁.entry y := by
    rw [entry_store hsize, if_neg hy]
  cases h.secured with
  | kept _ hothers => rw [hothers y hy, hstored]
  | filled _ _ _ hothers => rw [hothers y hy, hstored]

theorem Stepped.size_eq (h : Stepped w engine g n r r₁ content r') :
    r'.entries.size = r.entries.size := by
  rw [← h.grown.size, ← size_store r₁ n content]
  cases h.secured with
  | kept hsize => exact hsize
  | filled _ _ hsize => exact hsize

/-- The entry of the node itself, when its content was just noted. -/
theorem Stepped.entry_stored (h : Stepped w engine g n r r₁ content r')
    (hn : Next w g nodes done n) (hr : Coherent w g nodes outputs done r) :
    (r₁.store n content).entry n = { r.entry n with padding := some ⟨content, some n, []⟩ } := by
  rw [entry_store (h.grown.size ▸ hn.index_lt hr), if_pos rfl,
    h.grown.untouched n hn.graph hn.not_mem_inputs]

/-- The entry of the node itself. -/
theorem Stepped.own (h : Stepped w engine g n r r₁ content r') (hn : Next w g nodes done n)
    (hr : Coherent w g nodes outputs done r) :
    (r'.entry n).consumers = (r.entry n).consumers ∧ (r'.entry n).readers = (r.entry n).readers ∧
      (r'.entry n).padding.map PaddingValue.clone = some ⟨content, some n, []⟩ ∧
      FirstSettings w r n (r'.entry n).settings ∧
      ∀ x, x.graph = g → r.Emits x → r'.Emits x := by
  have hsize : n.index < r₁.entries.size := h.grown.size ▸ hn.index_lt hr
  have hold : r₁.entry n = r.entry n := h.grown.untouched n hn.graph hn.not_mem_inputs
  have hstored := h.entry_stored hn hr
  have hsensitive : (r₁.store n content).sensitive w n = r.sensitive w n := by
    rw [sensitive, hstored, sensitive]
  have hemits : ∀ x, x ≠ n → x.graph = g → r.Emits x →
      r₁.emissions.filter (·.tensor = x) =
        (List.range (r'.entry x).settings.length).map fun i => ⟨x, i⟩ := by
    intro x hx hgraph hemits
    rw [h.entry_of_index_ne hsize (index_ne hn.graph hgraph hx.symm)]
    exact h.grown.emits x hgraph hemits
  have hnone : r.Emits n → r₁.emissions.filter (·.tensor = n) = [] := by
    intro hemits
    have := h.grown.emits n hn.graph hemits
    rw [Emits, hold, (hr.blank n hn.graph hn.has hn.fresh).2] at this
    simpa using this
  cases h.secured with
  | kept _ _ hconsumers hreaders hpadding hsettings hemissions _ =>
    rw [hstored] at hconsumers hreaders hpadding
    refine ⟨hconsumers, hreaders, hpadding, .inl hsettings, fun x hx hx' => ?_⟩
    rw [Emits, hemissions]
    by_cases hxn : x = n
    · subst hxn
      rw [hsettings]
      exact hnone hx'
    · exact hemits x hxn hx hx'
  | filled v s _ _ hentry hfill htargets hdemanders hemissions _ _ _ =>
    rw [hstored] at hentry
    rw [hsensitive] at hdemanders
    rw [hentry]
    refine ⟨rfl, rfl, rfl, .inr ⟨s, v, rfl, hfill, htargets, hdemanders⟩, fun x hx hx' => ?_⟩
    rw [Emits, hemissions, List.filter_append]
    by_cases hxn : x = n
    · subst hxn
      change r₁.emissions.filter (·.tensor = x) ++ _ = _
      rw [hnone hx', hentry]
      simp
    · change r₁.emissions.filter (·.tensor = x) ++ _ = _
      rw [hemits x hxn hx hx']
      simp [Ne.symm hxn]

/-- The entries of other nodes. -/
theorem Stepped.others (h : Stepped w engine g n r r₁ content r') (hn : Next w g nodes done n)
    (hr : Coherent w g nodes outputs done r) {x : NodeRef} (hx : x.graph = g) (hne : x ≠ n) :
    r'.entry x = r₁.entry x :=
  h.entry_of_index_ne (h.grown.size ▸ hn.index_lt hr) (index_ne hn.graph hx hne.symm)

/-- Right after a node was simulated, just the consumers that may fault are noted on it. -/
theorem Stepped.notes_own (h : Stepped w engine g n r r₁ content r') (hn : Next w g nodes done n)
    (hr : Coherent w g nodes outputs done r) (c : NodeRef) :
    (r'.entry n).Notes c ↔ c ∈ r.sensitive w n := by
  have hstored := h.entry_stored hn hr
  have hblank := (hr.blank n hn.graph hn.has hn.fresh).2
  rw [h.secured.notes_iff (by rw [hstored]; exact hblank), hstored, Entry.Notes, sensitive,
    hstored, sensitive]
  simp [hblank]

theorem FirstSettings.of_mem {settings : List Setting}
    (h : FirstSettings w r n settings) {s : Setting} (hs : s ∈ settings) :
    s.constant? ≠ none ∧ s.targets = [] ∧ ∀ c, c ∈ s.demandedBy ↔ c ∈ r.sensitive w n := by
  rcases h with rfl | ⟨s', v, rfl, hfill, htargets, hdemanders⟩
  · simp at hs
  · obtain rfl := List.mem_singleton.1 hs
    exact ⟨by simp [Setting.constant?, hfill], htargets, hdemanders⟩

theorem Stepped.consumers_eq (h : Stepped w engine g n r r₁ content r')
    (hn : Next w g nodes done n) (hr : Coherent w g nodes outputs done r) {x : NodeRef}
    (hx : x.graph = g) : (r'.entry x).consumers = (r.entry x).consumers := by
  by_cases hxn : x = n
  · rw [hxn, (h.own hn hr).1]
  · rw [h.others hn hr hx hxn, h.grown.consumers]

theorem Stepped.readers_eq (h : Stepped w engine g n r r₁ content r')
    (hn : Next w g nodes done n) (hr : Coherent w g nodes outputs done r) {x : NodeRef}
    (hx : x.graph = g) : (r'.entry x).readers = (r.entry x).readers := by
  by_cases hxn : x = n
  · rw [hxn, (h.own hn hr).2.1]
  · rw [h.others hn hr hx hxn, h.grown.readers]

theorem Stepped.blank (h : Stepped w engine g n r r₁ content r') (hn : Next w g nodes done n)
    (hr : Coherent w g nodes outputs done r) {x : NodeRef} (hx : x.graph = g) (hhas : w.Has x)
    (hdone : x ∉ done ++ [n]) :
    (r'.entry x).padding = none ∧ (r'.entry x).settings = [] := by
  obtain ⟨hdone, hxn⟩ : x ∉ done ∧ x ≠ n := by simpa using hdone
  rw [h.others hn hr hx hxn, h.grown.untouched x hx fun hmem => hdone (hn.inputs x hmem)]
  exact hr.blank x hx hhas hdone

theorem Stepped.tidy (h : Stepped w engine g n r r₁ content r') (hn : Next w g nodes done n)
    (hr : Coherent w g nodes outputs done r) : r'.Tidy := by
  intro x s hs
  by_cases hindex : n.index = x.index
  · have hentry : r'.entry x = r'.entry n := by rw [entry, entry, hindex]
    rw [hentry] at hs
    exact .inl ((h.own hn hr).2.2.2.1.of_mem hs).2.1
  · rw [h.entry_of_index_ne (h.grown.size ▸ hn.index_lt hr) hindex] at hs
    exact h.grown.tidy hr.tidy x s hs

/-- A setting of another node comes from one before the step that `n` may have joined, or is one
that `n` demanded of an operand. -/
theorem Stepped.mem_settings_cases (h : Stepped w engine g n r r₁ content r')
    (hn : Next w g nodes done n) (hr : Coherent w g nodes outputs done r) {x : NodeRef}
    (hx : x.graph = g) (hne : x ≠ n) {s' : Setting} (hs' : s' ∈ (r'.entry x).settings) :
    (∃ s ∈ (r.entry x).settings, s'.constant? = s.constant? ∧ (s'.targets = [] ↔ s.targets = []) ∧
      (∀ c ∈ s.demandedBy, c ∈ s'.demandedBy) ∧
      ∀ c ∈ s'.demandedBy, c ∈ s.demandedBy ∨ c = n ∧ x ∈ (w.node n).inputs) ∨
    x ∈ (w.node n).inputs ∧
      ∃ fill, s' = Entry.newSetting (some n) fill (decide (1 < (r.entry x).readers)) := by
  rw [h.others hn hr hx hne] at hs'
  by_cases hinput : x ∈ (w.node n).inputs
  · rcases (h.grown.settings x).mem_cases hs' with ⟨s, hs, hjoined⟩ | hnew
    · refine .inl ⟨s, hs, hjoined.constant?_eq, hjoined.targets_eq_nil_iff,
        fun c => hjoined.mem_demandedBy_of_mem, fun c hc => ?_⟩
      exact (hjoined.mem_demandedBy hc).imp_right fun hcn => ⟨(Option.some.inj hcn).symm, hinput⟩
    · exact .inr ⟨hinput, hnew⟩
  · rw [h.grown.untouched x hx hinput] at hs'
    exact .inl ⟨s', hs', rfl, Iff.rfl, fun _ hc => hc, fun _ hc => .inl hc⟩

theorem Stepped.demanders (h : Stepped w engine g n r r₁ content r') (hn : Next w g nodes done n)
    (hr : Coherent w g nodes outputs done r) {x : NodeRef} (hx : x.graph = g) {s' : Setting}
    (hs' : s' ∈ (r'.entry x).settings) {c : NodeRef} (hc : c ∈ s'.demandedBy) :
    c ∈ (r'.entry x).consumers ∧
      (c ∈ done ++ [n] ∨ s'.constant? ≠ none ∧ (FaultRule.applying? w x c).isSome = true) := by
  rw [h.consumers_eq hn hr hx]
  by_cases hxn : x = n
  · subst hxn
    obtain ⟨hconst, -, hdemanders⟩ := (h.own hn hr).2.2.2.1.of_mem hs'
    obtain ⟨hmem, happly⟩ := List.mem_filter.1 ((hdemanders c).1 hc)
    exact ⟨hmem, .inr ⟨hconst, happly⟩⟩
  · -- the simulated node itself, or an old demander
    have hself : x ∈ (w.node n).inputs → n ∈ (r.entry x).consumers := by
      intro hinput
      obtain ⟨-, hhas, -⟩ := hn.doneHas x (hn.inputs x hinput)
      exact (hr.mem_consumers hx hhas).2 ⟨hn.mem, hinput⟩
    rcases h.mem_settings_cases hn hr hx hxn hs' with
      ⟨s, hs, hconst, -, -, hdemanders⟩ | ⟨hinput, fill, rfl⟩
    · rcases hdemanders c hc with hmem | ⟨rfl, hinput⟩
      · obtain ⟨hconsumer, hwhy⟩ := hr.demanders x hx s hs c hmem
        rw [hconst]
        exact ⟨hconsumer, hwhy.imp_left (List.mem_append_left [n])⟩
      · exact ⟨hself hinput, .inl (by simp)⟩
    · obtain rfl := Option.some.inj (Entry.mem_demandedBy_newSetting.1 hc)
      exact ⟨hself hinput, .inl (by simp)⟩

theorem Stepped.noted (h : Stepped w engine g n r r₁ content r') (hn : Next w g nodes done n)
    (hr : Coherent w g nodes outputs done r) {x : NodeRef} (hx : x ∈ done ++ [n]) {c : NodeRef}
    (hc : c ∈ (r'.entry x).consumers) (hdone : c ∉ done ++ [n]) :
    (r'.entry x).Notes c ↔ (FaultRule.applying? w x c).isSome = true := by
  obtain ⟨hcdone, hcn⟩ : c ∉ done ∧ c ≠ n := by simpa using hdone
  rcases List.mem_append.1 hx with hxdone | hxn
  · have hgraph := (hn.doneHas x hxdone).1
    have hne : x ≠ n := fun hxn => hn.fresh (hxn ▸ hxdone)
    rw [h.consumers_eq hn hr hgraph] at hc
    rw [h.others hn hr hgraph hne, h.grown.notes_iff (by simpa using hcn.symm)]
    exact hr.noted x hxdone c hc hcdone
  · obtain rfl := List.mem_singleton.1 hxn
    rw [h.consumers_eq hn hr hn.graph] at hc
    rw [h.notes_own hn hr, sensitive, List.mem_filter, and_iff_right hc]

theorem Stepped.positions (h : Stepped w engine g n r r₁ content r') (hn : Next w g nodes done n)
    (hr : Coherent w g nodes outputs done r) {x : NodeRef} (hx : x.graph = g) {s' : Setting}
    (hs' : s' ∈ (r'.entry x).settings) (hconst : s'.constant? = none) :
    s'.demandedBy ≠ [] ∧ (s'.targets = [] → (r'.entry x).readers ≤ 1) := by
  rw [h.readers_eq hn hr hx]
  by_cases hxn : x = n
  · subst hxn
    exact absurd hconst ((h.own hn hr).2.2.2.1.of_mem hs').1
  · rcases h.mem_settings_cases hn hr hx hxn hs' with
      ⟨s, hs, hsame, htargets, hkeeps, -⟩ | ⟨-, fill, rfl⟩
    · obtain ⟨hdemanded, hone⟩ := hr.positions x hx s hs (hsame ▸ hconst)
      obtain ⟨c, hc⟩ := List.exists_mem_of_ne_nil _ hdemanded
      exact ⟨List.ne_nil_of_mem (hkeeps c hc), fun hnil => hone (htargets.1 hnil)⟩
    · refine ⟨List.ne_nil_of_mem (Entry.mem_demandedBy_newSetting.2 rfl), fun hnil => ?_⟩
      rw [Entry.targets_newSetting] at hnil
      simpa using hnil

/-- **One step keeps the entries coherent.** -/
theorem Coherent.step (hr : Coherent w g nodes outputs done r) (hn : Next w g nodes done n)
    (h : Stepped w engine g n r r₁ content r') : Coherent w g nodes outputs (done ++ [n]) r' where
  toCounts := hr.toCounts.congr h.size_eq (fun _ => h.consumers_eq hn hr)
    fun _ => h.readers_eq hn hr
  blank _ := h.blank hn hr
  tidy := h.tidy hn hr
  emits x hx := (h.own hn hr).2.2.2.2 x hx (hr.emits x hx)
  demanders _ hx _ hs' _ hc := h.demanders hn hr hx hs' hc
  noted _ hx _ hc hdone := h.noted hn hr hx hc hdone
  positions _ hx _ hs' hconst := h.positions hn hr hx hs' hconst

/-! ### The simulated node -/

theorem exists_of_map_clone {o o' : Option PaddingValue} {p : PaddingValue}
    (h : o'.map PaddingValue.clone = o.map PaddingValue.clone) (hp : o = some p) :
    ∃ p', o' = some p' ∧ p'.content = p.content ∧ p'.origin = p.origin := by
  subst hp
  obtain ⟨p', rfl, hclone⟩ := Option.map_eq_some_iff.1 h
  cases p
  cases p'
  simp only [PaddingValue.clone, PaddingValue.mk.injEq] at hclone
  exact ⟨_, rfl, hclone.1, hclone.2.1⟩

theorem HoldsSafe.congr {x : NodeRef} (h : r.HoldsSafe w x)
    (hconsumers : (r'.entry x).consumers = (r.entry x).consumers)
    (hpadding : (r'.entry x).padding.map PaddingValue.clone =
      (r.entry x).padding.map PaddingValue.clone) : r'.HoldsSafe w x := by
  obtain ⟨p, v, hp, hcontent, hsafe⟩ := h
  obtain ⟨p', hp', hcontent', -⟩ := exists_of_map_clone hpadding hp
  refine ⟨p', v, hp', hcontent'.trans hcontent, ?_⟩
  rwa [rules, hconsumers]

theorem ReadsSafe.congr {x c : NodeRef} {rule : FaultRule} (h : r.ReadsSafe x c rule)
    (hread : (r'.read x (some c)).map PaddingValue.clone =
      (r.read x (some c)).map PaddingValue.clone) :
    r'.ReadsSafe x c rule := by
  obtain ⟨p, v, hp, hcontent, hsafe⟩ := h
  obtain ⟨p', hp', hcontent', -⟩ := exists_of_map_clone hread hp
  exact ⟨p', v, hp', hcontent'.trans hcontent, hsafe⟩

/-- A tensor that was made safe is read as safe by all its consumers. -/
theorem Secured.safe {x : NodeRef} (h : Secured w x r r') {c : NodeRef}
    (hc : c ∈ (r.entry x).consumers) {rule : FaultRule}
    (hrule : FaultRule.applying? w x c = some rule) : r'.ReadsSafe x c rule := by
  have hmem : rule ∈ r.rules w x := List.mem_filterMap.2 ⟨c, hc, hrule⟩
  cases h with
  | kept _ _ _ _ hpadding hsettings _ hsafe =>
    rcases hsafe with hnone | ⟨p, v, hp, hcontent, hall⟩
    · have : c ∈ r.sensitive w x := List.mem_filter.2 ⟨hc, by simp [hrule]⟩
      simp [hnone] at this
    · obtain ⟨p', hp', hcontent', -⟩ := exists_of_map_clone hpadding hp
      refine ⟨p', v, ?_, hcontent'.trans hcontent, List.all_eq_true.1 hall rule hmem⟩
      rw [read, Entry.read_eq, hsettings]
      exact hp'
  | filled v s _ _ hentry hfill htargets _ _ _ _ hv =>
    refine ⟨⟨.exact v, some x, []⟩, v, ?_, rfl,
      List.all_eq_true.1 (FaultRule.exists_of_fill? hv).1 rule hmem⟩
    rw [read, Entry.read_eq, hentry, RunM.fillFor_single hfill htargets]

/-- A tensor that was not safe got an unconditional fill. -/
theorem Secured.filledFirst {x : NodeRef} (h : Secured w x r r') (hsensitive : r.sensitive w x ≠ [])
    (hneeds : ¬r.HoldsSafe w x) : r'.FilledFirst w x := by
  cases h with
  | kept _ _ _ _ _ _ _ hsafe => exact absurd hsafe (by simp [hsensitive, hneeds])
  | filled v s _ _ hentry hfill htargets _ _ _ _ hv =>
    refine ⟨v, s, [], by rw [hentry], hfill, htargets, ?_, by simp⟩
    rw [rules, hentry]
    exact hv

theorem Stepped.sameFor (h : Stepped w engine g n r r₁ content r') (hn : Next w g nodes done n)
    (hr : Coherent w g nodes outputs done r) {x : NodeRef} (hx : x ∈ (w.node n).inputs)
    (c : Option NodeRef) : r'.read x c = r₁.read x c := by
  have hne : x ≠ n := fun hxn => hn.not_mem_inputs (hxn ▸ hx)
  rw [read, read, h.others hn hr (hn.doneHas x (hn.inputs x hx)).1 hne]

/-- A pointwise node demanded just the copies of lane 0 that the operands it looked at need. -/
theorem Stepped.demands_iff (h : Stepped w engine g n r r₁ content r') (hn : Next w g nodes done n)
    (hr : Coherent w g nodes outputs done r) (hpoint : (w.node n).op.isPointwise = true)
    {x : NodeRef} (hx : x ∈ (w.node n).inputs) (e : PositionExpr) :
    r'.Demands n x e ↔
      .node x ∈ r'.viewedOperands w engine n ∧ w.laneFix n x ≠ [] ∧ e = w.laneFixExpr n x := by
  have hviewed := h.viewed hpoint
  have hsame : SameFor w n r₁ r' := fun y hy => by rw [h.sameFor hn hr hy]
  have hgraph := (hn.doneHas x (hn.inputs x hx)).1
  have hne : x ≠ n := fun hxn => hn.not_mem_inputs (hxn ▸ hx)
  have hnone : ¬r.Demands n x e := by
    rintro ⟨s, hs, hfill, hmem⟩
    exact hr.fresh hgraph hs hn.fresh (.inl (by rw [Setting.constant?, hfill])) hmem
  have hdemands : r'.Demands n x e ↔ r₁.Demands n x e := by
    rw [Demands, Demands, h.others hn hr hgraph hne]
  rw [hdemands, hviewed.fixes x e hgraph, or_iff_right hnone, hsame.viewedOperands_eq,
    hviewed.sameFor.viewedOperands_eq]

/-- Before it is simulated, the node is noted on an operand exactly if it may fault there. -/
theorem Next.notes_iff (hn : Next w g nodes done n) (hr : Coherent w g nodes outputs done r)
    {x : NodeRef} (hx : x ∈ (w.node n).inputs) :
    (r.entry x).Notes n ↔ (FaultRule.applying? w x n).isSome = true := by
  obtain ⟨hgraph, hhas, -⟩ := hn.doneHas x (hn.inputs x hx)
  exact hr.noted x (hn.inputs x hx) n ((hr.mem_consumers hgraph hhas).2 ⟨hn.mem, hx⟩) hn.fresh

/-- A pointwise node is noted on the operands that it views with a fix, and on its branches. -/
theorem Stepped.notes_pointwise (h : Stepped w engine g n r r₁ content r')
    (hn : Next w g nodes done n) (hr : Coherent w g nodes outputs done r)
    (hpoint : (w.node n).op.isPointwise = true) {x : NodeRef} (hx : x ∈ (w.node n).inputs) :
    (r₁.entry x).Notes n ↔
      (FaultRule.applying? w x n).isSome = true ∨ r'.Uses w engine n x := by
  have hviewed := h.viewed hpoint
  have hsame : SameFor w n r₁ r' := fun y hy => by rw [h.sameFor hn hr hy]
  have hgraph := (hn.doneHas x (hn.inputs x hx)).1
  have hnot : ¬∃ fn axes keep, (w.node n).op = .reduce fn axes keep ∧
      ((w.node x).paddedAxes.filter (· ∈ axes)).isEmpty = false := by
    rintro ⟨fn, axes, keep, hop, -⟩
    simp [hop, Op.isPointwise] at hpoint
  rw [hviewed.notes x hgraph, hn.notes_iff hr hx, Uses, or_iff_right hnot, and_iff_right hpoint,
    hsame.viewedOperands_eq, hviewed.sameFor.viewedOperands_eq, hsame.resolvedOperands_eq,
    hviewed.sameFor.resolvedOperands_eq]

/-- A reduction is noted on its operand exactly if it reduces padding lanes. -/
theorem Stepped.notes_reduce (h : Stepped w engine g n r r₁ content r')
    (hn : Next w g nodes done n) (hr : Coherent w g nodes outputs done r) {fn : ReduceFn}
    {axes : List Nat} {keep : Bool} (hop : (w.node n).op = .reduce fn axes keep) {x : NodeRef}
    (hoperands : (w.node n).operands = [.node x]) (hx : x ∈ (w.node n).inputs) :
    (r₁.entry x).Notes n ↔
      (FaultRule.applying? w x n).isSome = true ∨ r'.Uses w engine n x := by
  obtain ⟨hgraph, hhas, -⟩ := hn.doneHas x (hn.inputs x hx)
  rw [applying?_reduce hop, Uses, hop]
  cases hpadded : ((w.node x).paddedAxes.filter (· ∈ axes)).isEmpty with
  | true =>
    rw [h.silent ⟨fn, axes, keep, x, hop, hoperands, hpadded⟩, hn.notes_iff hr hx,
      applying?_reduce hop]
    simpa [Op.isPointwise] using hpadded
  | false =>
    obtain ⟨v, -, -, current, hcurrent, hr₁⟩ := h.neutral fn axes keep x hop hoperands hpadded
    refine iff_of_true ?_ (.inr (.inl ⟨fn, axes, keep, rfl, hpadded⟩))
    have hsize := hr.toCounts.index_lt hgraph hhas
    split at hr₁
    · rw [hr₁, entry_modifyEntry hsize, if_pos rfl]
      exact Entry.notes_rely hcurrent
    · rw [hr₁, entry_write hsize, if_pos rfl]
      exact Entry.notes_write ..

/-- **The simulated node is settled.** -/
theorem Stepped.settled (h : Stepped w engine g n r r₁ content r') (hn : Next w g nodes done n)
    (hr : Coherent w g nodes outputs done r) : Settled w engine r' n := by
  obtain ⟨hconsumers, -, hpadding, -, -⟩ := h.own hn hr
  have hsame : SameFor w n r₁ r' := fun x hx => by rw [h.sameFor hn hr hx]
  have hstored := h.entry_stored hn hr
  constructor
  case holds =>
    obtain ⟨p, hp, hcontent, horigin⟩ :=
      exists_of_map_clone (p := ⟨content, some n, []⟩) (o := some _) hpadding rfl
    exact ⟨p, hp, horigin, by rw [hsame.infer_eq, h.infers, hcontent]⟩
  case neutral =>
    intro fn axes keep x hop hx hpadded
    obtain ⟨v, hv, ⟨q, hq, hexact⟩, -⟩ := h.neutral fn axes keep x hop hx hpadded
    rw [h.sameFor hn hr (by simp [Node.inputs, hx, Operand.node?])]
    exact ⟨v, q, hv, hq, hexact⟩
  case safe =>
    intro c hc rule hrule
    exact h.secured.safe (by rwa [hstored, ← hconsumers]) hrule
  case filled =>
    intro hsensitive hneeds
    refine h.secured.filledFirst ?_ fun hholds => hneeds (hholds.congr ?_ ?_)
    · rwa [sensitive, hstored, ← hconsumers]
    · rw [hstored, hconsumers]
    · rw [hstored, hpadding]
      rfl
  case fixed => exact fun hpoint x hx e => h.demands_iff hn hr hpoint hx e
  case noted =>
    intro x hx
    have hne : x ≠ n := fun hxn => hn.not_mem_inputs (hxn ▸ hx)
    rw [h.others hn hr (hn.doneHas x (hn.inputs x hx)).1 hne]
    by_cases hpoint : (w.node n).op.isPointwise = true
    · exact h.notes_pointwise hn hr hpoint hx
    · obtain ⟨fn, axes, keep, hop, hoperands⟩ := hn.formed.exists_reduce hx hpoint
      exact h.notes_reduce hn hr hop hoperands hx

/-! ### Nodes simulated before -/

/-- Others' demands are not touched. -/
theorem Grown.demands_iff {c : Option NodeRef} {T : NodeRef → Prop}
    (h : Grown w g c T r r') {k : NodeRef} (hk : c ≠ some k) (x : NodeRef) (e : PositionExpr) :
    r'.Demands k x e ↔ r.Demands k x e := by
  constructor
  · rintro ⟨s', hs', hfill, hmem⟩
    rcases (h.settings x).mem_cases hs' with ⟨s, hs, hjoined⟩ | ⟨fill, rfl⟩
    · exact ⟨s, hs, hjoined.fill_eq ▸ hfill, (hjoined.mem_demandedBy hmem).resolve_right hk⟩
    · exact absurd (Entry.mem_demandedBy_newSetting.1 hmem) hk
  · rintro ⟨s, hs, hfill, hmem⟩
    obtain ⟨s', hs', hjoined⟩ := (h.settings x).exists_joined hs
    exact ⟨s', hs', hjoined.fill_eq.trans hfill, hjoined.mem_demandedBy_of_mem hmem⟩

/-- The unconditional fill stays first, and no other one is made. -/
theorem FilledFirst.congr {x : NodeRef} {c : Option NodeRef} {t : Bool} (h : r.FilledFirst w x)
    (hconsumers : (r'.entry x).consumers = (r.entry x).consumers)
    (hsettings : SettingsGrow c t (r.entry x).settings (r'.entry x).settings)
    (hnew : ∀ i s', (r'.entry x).settings[i]? = some s' → s'.constant? ≠ none → s'.targets = [] →
      i < (r.entry x).settings.length) : r'.FilledFirst w x := by
  obtain ⟨v, s, rest, heq, hfill, htargets, hv, hrest⟩ := h
  rw [heq] at hsettings hnew
  cases hsettings' : (r'.entry x).settings with
  | nil => rw [hsettings'] at hsettings; cases hsettings
  | cons s' rest' =>
    rw [hsettings'] at hsettings hnew
    cases hsettings with
    | old hjoined hgrow =>
      refine ⟨v, s', rest', hsettings', hjoined.fill_eq.trans hfill,
        hjoined.targets_eq_nil_iff.2 htargets, by rwa [rules, hconsumers],
        fun u' hu' hconst hnil => ?_⟩
      obtain ⟨i, hi⟩ := List.mem_iff_getElem?.1 hu'
      rcases hgrow.getElem?_cases hi with ⟨u, hu, hj⟩ | ⟨hle, -⟩
      · exact hrest u (List.mem_of_getElem? hu) (hj.constant?_eq ▸ hconst)
          (hj.targets_eq_nil_iff.1 hnil)
      · have := hnew (i + 1) u' hi hconst hnil
        simp only [List.length_cons] at this
        omega

/-- **What keeps a node settled**: it and its consumers that need it safe read the same as before,
and no unconditional constant is added where a safe one was. -/
theorem Settled.congr {x : NodeRef} {c : Option NodeRef} {t : Bool} (h : Settled w engine r x)
    (hconsumers : (r'.entry x).consumers = (r.entry x).consumers)
    (hpadding : (r'.entry x).padding.map PaddingValue.clone =
      (r.entry x).padding.map PaddingValue.clone)
    (hsettings : SettingsGrow c t (r.entry x).settings (r'.entry x).settings)
    (hsame : SameFor w x r r')
    (hreads : ∀ k ∈ r.sensitive w x,
      (r'.read x (some k)).map PaddingValue.clone = (r.read x (some k)).map PaddingValue.clone)
    (hnew : r.sensitive w x ≠ [] → ∀ i s', (r'.entry x).settings[i]? = some s' →
      s'.constant? ≠ none → s'.targets = [] → i < (r.entry x).settings.length)
    (hdemands : ∀ y ∈ (w.node x).inputs, ∀ e, r'.Demands x y e ↔ r.Demands x y e)
    (hnotes : ∀ y ∈ (w.node x).inputs, (r'.entry y).Notes x ↔ (r.entry y).Notes x) :
    Settled w engine r' x := by
  have hsensitive : r'.sensitive w x = r.sensitive w x := by rw [sensitive, hconsumers, sensitive]
  constructor
  case holds =>
    obtain ⟨p, hp, horigin, hinfer⟩ := h.holds
    obtain ⟨p', hp', hcontent', horigin'⟩ := exists_of_map_clone hpadding hp
    exact ⟨p', hp', horigin'.trans horigin, by rw [hsame.infer_eq, hinfer, hcontent']⟩
  case neutral =>
    intro fn axes keep y hop hy hpadded
    obtain ⟨v, q, hv, hq, hexact⟩ := h.neutral fn axes keep y hop hy hpadded
    obtain ⟨q', hq', hcontent, -⟩ :=
      exists_of_map_clone (hsame y (by simp [Node.inputs, hy, Operand.node?])) hq
    refine ⟨v, q', hv, hq', ?_⟩
    rwa [PaddingValue.isExact, hcontent]
  case safe =>
    intro k hk rule hrule
    rw [hconsumers] at hk
    exact (h.safe k hk rule hrule).congr (hreads k (List.mem_filter.2 ⟨hk, by simp [hrule]⟩))
  case filled =>
    rw [hsensitive]
    intro hsome hneeds
    exact (h.filled hsome fun hholds => hneeds (hholds.congr hconsumers hpadding)).congr hconsumers
      hsettings (hnew hsome)
  case fixed =>
    intro hpoint y hy e
    rw [hdemands y hy e, hsame.viewedOperands_eq]
    exact h.fixed hpoint y hy e
  case noted =>
    intro y hy
    rw [hnotes y hy, Uses, hsame.viewedOperands_eq, hsame.resolvedOperands_eq]
    exact h.noted y hy

/-- Only pointwise operators have rules for their operands. -/
theorem isPointwise_of_applying? {x : NodeRef} (h : (FaultRule.applying? w x n).isSome = true) :
    (w.node n).op.isPointwise = true := by
  rw [FaultRule.applying?, FaultRule.of?] at h
  cases hop : (w.node n).op <;> simp_all [Op.isPointwise]

/-- What the simulated node and another consumer both read has more readers than one. -/
theorem Next.shared (hn : Next w g nodes done n) (hr : Coherent w g nodes outputs done r)
    {y c : NodeRef} (hc : c ∈ (r.entry y).consumers) (hcn : c ≠ n)
    (hinput : y ∈ (w.node n).inputs) : 1 < (r.entry y).readers := by
  obtain ⟨hgraph, hhas, -⟩ := hn.doneHas y (hn.inputs y hinput)
  exact hr.one_lt_readers hgraph hhas hc ((hr.mem_consumers hgraph hhas).2 ⟨hn.mem, hinput⟩) hcn

theorem Stepped.entry_of_done (h : Stepped w engine g n r r₁ content r')
    (hn : Next w g nodes done n) (hr : Coherent w g nodes outputs done r) {y : NodeRef}
    (hy : y ∈ done) : r'.entry y = r₁.entry y :=
  h.others hn hr (hn.doneHas y hy).1 fun hyn => hn.fresh (hyn ▸ hy)

/-- Other consumers read the same as before. -/
theorem Stepped.read_eq (h : Stepped w engine g n r r₁ content r') (hn : Next w g nodes done n)
    (hr : Coherent w g nodes outputs done r) {y c : NodeRef} (hy : y ∈ done)
    (hc : c ∈ (r.entry y).consumers) (hcn : c ≠ n) :
    (r'.read y (some c)).map PaddingValue.clone =
      (r.read y (some c)).map PaddingValue.clone := by
  refine read_congr ?_ (by rw [h.entry_of_done hn hr hy, h.grown.padding])
  rw [h.entry_of_done hn hr hy]
  exact h.grown.fillFor_eq (by simpa using hcn.symm) (hn.doneHas y hy).1 (hn.shared hr hc hcn)

/-- On a tensor that must be safe for a consumer, a step adds no unconditional constant. -/
theorem Stepped.constant_old (h : Stepped w engine g n r r₁ content r')
    (hn : Next w g nodes done n) (hr : Coherent w g nodes outputs done r) {x : NodeRef}
    (hx : x ∈ done) (hsensitive : r.sensitive w x ≠ []) {i : Nat} {s' : Setting}
    (hs' : (r'.entry x).settings[i]? = some s') (hconst : s'.constant? ≠ none)
    (htargets : s'.targets = []) : i < (r.entry x).settings.length := by
  rw [h.entry_of_done hn hr hx] at hs'
  obtain ⟨k, hk⟩ := List.exists_mem_of_ne_nil _ hsensitive
  obtain ⟨hk, happly⟩ := List.mem_filter.1 hk
  by_cases hkn : k = n
  · subst hkn
    exact (h.viewed (isPointwise_of_applying? happly)).constants x i s' hs' hconst
  · by_cases hinput : x ∈ (w.node n).inputs
    · rcases (h.grown.settings x).getElem?_cases hs' with ⟨s, hs, -⟩ | ⟨-, fill, rfl⟩
      · exact (List.getElem?_eq_some_iff.1 hs).1
      · rw [Entry.targets_newSetting,
          if_pos (by simpa using hn.shared hr hk hkn hinput)] at htargets
        exact absurd htargets (by simp)
    · rw [h.grown.untouched x (hn.doneHas x hx).1 hinput] at hs'
      exact (List.getElem?_eq_some_iff.1 hs').1

/-- **Nodes simulated before stay settled.** -/
theorem Settled.step {x : NodeRef} (h : Settled w engine r x) (hx : x ∈ done)
    (hr : Coherent w g nodes outputs done r) (hn : Next w g nodes done n)
    (hstep : Stepped w engine g n r r₁ content r') : Settled w engine r' x := by
  have hne : x ≠ n := fun hxn => hn.fresh (hxn ▸ hx)
  have hentry := hstep.entry_of_done hn hr hx
  refine h.congr (c := some n) (t := decide (1 < (r.entry x).readers)) ?_ ?_ ?_ ?_ ?_ ?_ ?_ ?_
  · rw [hentry, hstep.grown.consumers]
  · rw [hentry, hstep.grown.padding]
  · rw [hentry]
    exact hstep.grown.settings x
  · intro y hy
    have hydone := hn.doneInputs x hx y hy
    obtain ⟨hygraph, hyhas, -⟩ := hn.doneHas y hydone
    exact hstep.read_eq hn hr hydone
      ((hr.mem_consumers hygraph hyhas).2 ⟨(hn.doneHas x hx).2.2, hy⟩) hne
  · intro k hk
    obtain ⟨hk, happly⟩ := List.mem_filter.1 hk
    by_cases hkn : k = n
    · subst hkn
      rw [read, hentry]
      exact (hstep.viewed (isPointwise_of_applying? happly)).read_eq x (some k)
    · exact hstep.read_eq hn hr hx hk hkn
  · exact fun hsensitive i s' => hstep.constant_old hn hr hx hsensitive
  · intro y hy e
    rw [Demands, hstep.entry_of_done hn hr (hn.doneInputs x hx y hy)]
    exact hstep.grown.demands_iff (by simpa using hne.symm) y e
  · intro y hy
    rw [hstep.entry_of_done hn hr (hn.doneInputs x hx y hy)]
    exact hstep.grown.notes_iff (by simpa using hne.symm) y

end Step

/-! ## A whole run -/

section Simulated

variable {w : Workspace} {engine : Engine} {g : Nat} {roots nodes outputs done rest : List NodeRef}
  {r r' : Run}

/-- The nodes before a listed one are all that it depends on. -/
theorem next_of_lists (hw : w.WellFormed) (hlists : w.Lists g roots nodes) {n : NodeRef}
    (h : nodes = done ++ n :: rest) : Next w g nodes done n := by
  have hmem : n ∈ nodes := by simp [h]
  have hdone : ∀ x ∈ done, x ∈ nodes := fun x hx => by simp [h, hx]
  obtain ⟨hgraph, hhas⟩ := hlists.has n hmem
  have hsorted := hlists.sorted
  rw [h, List.pairwise_append, List.pairwise_cons] at hsorted
  have hinputs : ∀ m, m ∈ done ∨ m = n → ∀ x ∈ (w.node m).inputs, x ∈ done := by
    intro m hm x hx
    have hm' : m ∈ nodes := hm.elim (hdone m) fun hmn => hmn ▸ hmem
    have hlt := ((hw m (hlists.has m hm').2).earlier x hx).2
    have hle : m.index ≤ n.index := by
      rcases hm with hm | rfl
      · exact Nat.le_of_lt (hsorted.2.2 m hm n (by simp))
      · exact Nat.le_refl _
    exact hlists.mem_before h (hlists.inputs m hm' x hx) (Nat.lt_of_lt_of_le hlt hle)
  constructor
  case formed => exact hw n hhas
  case graph => exact hgraph
  case has => exact hhas
  case mem => exact hmem
  case fresh => exact fun hn => absurd (hsorted.2.2 n hn n (by simp)) (Nat.lt_irrefl _)
  case inputs => exact hinputs n (.inr rfl)
  case doneHas =>
    exact fun x hx => ⟨(hlists.has x (hdone x hx)).1, (hlists.has x (hdone x hx)).2, hdone x hx⟩
  case doneInputs => exact fun x hx => hinputs x (.inl hx)

/-- **What a simulation keeps** is what every step keeps, from coherent states to coherent
states. -/
theorem simulateFrom_induction (hw : w.WellFormed) (hlists : w.Lists g roots nodes)
    {l : List NodeRef} {I : List NodeRef → Run → Prop}
    (hstep : ∀ {done n r r₁ content r'}, n ∈ l → Next w g nodes done n →
      Coherent w g nodes outputs done r → Stepped w engine g n r r₁ content r' → I done r →
      I (done ++ [n]) r')
    {count i : Nat} (hsplit : nodes = done ++ (l ++ rest)) (hr : Coherent w g nodes outputs done r)
    (hI : I done r) (h : engine.simulateFrom w count i l r = .ok r') :
    Coherent w g nodes outputs (done ++ l) r' ∧ I (done ++ l) r' := by
  induction l generalizing done r i with
  | nil =>
    obtain rfl := Except.ok.inj h
    rw [List.append_nil]
    exact ⟨hr, hI⟩
  | cons n l ih =>
    rw [Engine.simulateFrom] at h
    split at h
    · exact absurd h (by simp)
    · rename_i u r₂ hyields
      have hn := next_of_lists hw hlists (show nodes = done ++ n :: (l ++ rest) from hsplit)
      obtain ⟨r₁, content, hstepped⟩ := exists_stepped hn hr (u := u) hyields
      have hsplit' : nodes = (done ++ [n]) ++ (l ++ rest) := by simp [hsplit]
      have hrest := ih (fun hm => hstep (List.mem_cons_of_mem n hm)) hsplit' (hr.step hn hstepped)
        (hstep List.mem_cons_self hn hr hstepped hI) h
      rwa [List.append_assoc] at hrest

/-- **What was simulated is settled.** -/
theorem simulateFrom_spec (hw : w.WellFormed) (hlists : w.Lists g roots nodes) {l : List NodeRef}
    {count i : Nat} (hsplit : nodes = done ++ (l ++ rest)) (hr : Coherent w g nodes outputs done r)
    (hsettled : ∀ x ∈ done, Settled w engine r x) (h : engine.simulateFrom w count i l r = .ok r') :
    Coherent w g nodes outputs (done ++ l) r' ∧ ∀ x ∈ done ++ l, Settled w engine r' x := by
  refine simulateFrom_induction hw hlists
    (I := fun done r => ∀ x ∈ done, Settled w engine r x) ?_ hsplit hr hsettled h
  intro done n r r₁ content r' _ hn hr hstepped hsettled x hx
  rcases List.mem_append.1 hx with hx | hx
  · exact (hsettled x hx).step hx hr hn hstepped
  · exact List.mem_singleton.1 hx ▸ hstepped.settled hn hr

end Simulated

end Run
end LanePadding
