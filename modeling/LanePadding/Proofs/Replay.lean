import LanePadding.Proofs.Correspondence
import LanePadding.Proofs.Progress
import LanePadding.Proofs.Stores

/-!
# Analyses of graphs that correspond

Suppose that a graph was analysed.  Another graph may be a part of it, up to the names of nodes: all
its nodes stand for nodes of the first one, and so do their inputs, but the first one may have
further nodes.  If every tensor has to meet the same rules in both graphs, then the other graph can
be analysed as well, and the padding lanes of its nodes hold the same.

The reason is that what a tensor offers is decided by its own content and by those rules
(`Run.Offers.same`).  Further consumers only add constants that they demand for themselves.  A
consumer that is pointwise, or a reduction over real lanes, reads what is offered, so its equation
has the same solution; and a reduction over padding lanes has a fixed one.  The analysis is thus
replayed node by node, in whatever order the other graph lists them.

## What is here

* `Correspondence.Embeds` — the nodes of one graph stand for nodes of another one.
* `Run.Offers.same` — corresponding tensors offer the same.
* `Run.Replays.step` — one step is replayed.
* `Correspondence.Embeds.exists_analyze` — the whole analysis is.
-/

set_option autoImplicit false

namespace LanePadding

/-! ## Fills -/

namespace FaultRule

/-- The fill depends on which rules there are, and not on their order. -/
theorem fill?_congr {rules rules' : List FaultRule}
    (hmem : ∀ rule, rule ∈ rules ↔ rule ∈ rules') {d : DType} {v : Scalar}
    (h : fill? rules' d rules' = .ok (some v)) : fill? rules d rules = .ok (some v) := by
  obtain ⟨-, rule, hrule, hv⟩ := exists_of_fill? h
  obtain ⟨hd, -⟩ := Scalar.ofDouble_eq_ok hv
  obtain ⟨_, hu, u, rfl, -⟩ := returns_fill? (List.ne_nil_of_mem ((hmem rule).2 hrule)) hd
  obtain ⟨hudtype, huone, huzero⟩ := value_of_fill? hu
  obtain ⟨hvdtype, hvone, hvzero⟩ := value_of_fill? h
  have hvalue : u.value = v.value := by
    by_cases hall : ∀ rule ∈ rules', rule = .nonNegative
    · rw [hvzero hall, huzero fun rule hrule => hall rule ((hmem rule).1 hrule)]
    · push Not at hall
      obtain ⟨other, hother, hne⟩ := hall
      rw [hvone ⟨other, hother, hne⟩, huone ⟨other, (hmem other).2 hother, hne⟩]
  rw [hu]
  cases u
  cases v
  simp_all

theorem allSafe_congr {rules rules' : List FaultRule} (hmem : ∀ rule, rule ∈ rules ↔ rule ∈ rules')
    (v : Number.Double) : allSafe rules v = allSafe rules' v := by
  rw [Bool.eq_iff_iff, allSafe, allSafe, List.all_eq_true, List.all_eq_true]
  exact forall_congr' fun rule => by rw [hmem]

end FaultRule

namespace Run

variable {w w' : Workspace} {engine : Engine} {κ : Correspondence} {g : Nat}
  {nodes outputs done : List NodeRef} {x x' n : NodeRef} {k k' : Nat} {q q' : PaddingValue}
    {r r₁ r' : Run}

/-- Some consumers may fault just if there are rules. -/
theorem sensitive_eq_nil_iff : r.sensitive w x = [] ↔ r.rules w x = [] := by
  rw [sensitive, rules, List.filter_eq_nil_iff, List.filterMap_eq_nil_iff]
  simp

theorem Counts.mem_rules_iff (hr : Counts w g nodes outputs r) (hx : x.graph = g) (hhas : w.Has x)
    {rule : FaultRule} :
    rule ∈ r.rules w x ↔
      ∃ c ∈ nodes, x ∈ (w.node c).inputs ∧ FaultRule.applying? w x c = some rule := by
  rw [rules, List.mem_filterMap]
  simp only [hr.mem_consumers hx hhas, and_assoc]

/-- The padding lanes of the two tensors hold the same themselves. -/
def SameOwn (κ : Correspondence) (x x' : NodeRef) (r r' : Run) : Prop :=
  ∃ p p', (r.entry x).padding = some p ∧ (r'.entry x').padding = some p' ∧
    κ.SameContent p.content p'.content

theorem HoldsSafe.same (h : r.HoldsSafe w x) (hown : SameOwn κ x x' r r')
    (hrules : ∀ rule, rule ∈ r.rules w x ↔ rule ∈ r'.rules w' x') : r'.HoldsSafe w' x' := by
  obtain ⟨p, v, hp, hv, hsafe⟩ := h
  obtain ⟨p₀, p', hp₀, hp', hsame⟩ := hown
  obtain rfl := Option.some.inj (hp.symm.trans hp₀)
  rw [hv] at hsame
  exact ⟨p', v, hp', hsame.of_exact, by rwa [← FaultRule.allSafe_congr hrules]⟩

theorem SameOwn.congr {s s' : Run} (h : SameOwn κ x x' r r')
    (hpadding : (s.entry x).padding.map PaddingValue.clone =
      (r.entry x).padding.map PaddingValue.clone)
    (hpadding' : (s'.entry x').padding.map PaddingValue.clone =
      (r'.entry x').padding.map PaddingValue.clone) :
    SameOwn κ x x' s s' := by
  obtain ⟨p, p', hp, hp', hsame⟩ := h
  obtain ⟨q, hq, hcontent, -⟩ := exists_of_map_clone hpadding hp
  obtain ⟨q', hq', hcontent', -⟩ := exists_of_map_clone hpadding' hp'
  exact ⟨q, q', hq, hq', hcontent ▸ hcontent' ▸ hsame⟩

theorem SameOwn.symm (h : SameOwn κ x x' r r') : SameOwn κ.symm x' x r' r := by
  obtain ⟨p, p', hp, hp', hsame⟩ := h
  exact ⟨p', p, hp', hp, hsame.symm⟩

/-- **Tensors that stand for each other offer the same** if they hold the same and have to meet the
same rules. -/
theorem Offers.same (h : r.Offers w x k q) (h' : r'.Offers w' x' k' q') (hx : κ.nodes x x')
    (hnode : κ.SameNode (w.node x) (w'.node x')) (hown : SameOwn κ x x' r r')
    (hrules : ∀ rule, rule ∈ r.rules w x ↔ rule ∈ r'.rules w' x') :
    k = k' ∧ κ.SamePadding q q' := by
  have hsensitive : r.sensitive w x = [] ↔ r'.sensitive w' x' = [] := by
    rw [sensitive_eq_nil_iff, sensitive_eq_nil_iff, List.eq_nil_iff_forall_not_mem,
      List.eq_nil_iff_forall_not_mem]
    exact forall_congr' fun rule => by rw [hrules]
  have hholds : r.HoldsSafe w x ↔ r'.HoldsSafe w' x' :=
    ⟨fun h => h.same hown hrules, fun h => h.same hown.symm fun rule => (hrules rule).symm⟩
  cases h with
  | own hp _ hsafe =>
    cases h' with
    | own hp' =>
      obtain ⟨p, p', hp₀, hp₀', hsame⟩ := hown
      obtain rfl := Option.some.inj (hp.symm.trans hp₀)
      obtain rfl := Option.some.inj (hp'.symm.trans hp₀')
      exact ⟨rfl, hsame, .some hx⟩
    | filled _ _ _ hsome hneeds =>
      rw [hsensitive, hholds] at hsafe
      exact absurd hsafe (by simp [hsome, hneeds])
  | filled _ _ _ hsome hneeds hv =>
    cases h' with
    | own _ _ hsafe =>
      rw [← hsensitive, ← hholds] at hsafe
      exact absurd hsafe (by simp [hsome, hneeds])
    | filled _ _ _ _ _ hv' =>
      rw [FaultRule.fill?_congr hrules (hnode.dtype ▸ hv')] at hv
      obtain rfl := Option.some.inj (Except.ok.inj hv)
      exact ⟨rfl, .exact _, .some hx⟩

theorem Offers.fits (h : r.Offers w x k q)
    (hown : ∀ p, (r.entry x).padding = some p → p.content.Fits (w.node x).dtype) :
    q.content.Fits (w.node x).dtype := by
  cases h with
  | @own p hp => exact hown p hp
  | filled _ _ _ _ _ hv =>
    intro u hu
    rw [← Content.exact.inj hu]
    exact (FaultRule.value_of_fill? hv).1

/-! ## What consumers read -/

/-- Whoever has no need of its own reads what is offered: pointwise nodes, and reductions over real
lanes. -/
theorem Shape.read_of_real (h : r.Shape w x (engine.Needs w x) k q)
    (hr : Coherent w g nodes outputs done r) (hx : x.graph = g) (hhas : w.Has x) {c : NodeRef}
    (hc : c ∈ (r.entry x).consumers) (hreal : (w.node c).op.isPointwise = true ∨ w.ReducesReal c) :
    (r.read x (some c)).map PaddingValue.clone = some q := by
  refine h.read_eq_of_consumer hr hx hhas hc fun i s hi hs hconst hmem => ?_
  obtain ⟨v, hv⟩ := Option.ne_none_iff_exists'.1 hconst
  obtain ⟨u, hneeds, -⟩ := (h.constants i s hi hs v hv).2.2 c hmem
  rcases hreal with hpoint | ⟨fn, axes, keep, y, hop, hoperands, hempty⟩
  · rw [hneeds.isPointwise_eq_false] at hpoint
    exact absurd hpoint (by simp)
  · obtain ⟨fn', axes', keep', hop', hoperands', hpadded, -⟩ := hneeds
    obtain ⟨-, rfl, -⟩ : fn = fn' ∧ axes = axes' ∧ keep = keep' := by simpa [hop] using hop'
    obtain rfl : y = x := by simpa [hoperands] using hoperands'
    exact absurd (hempty.symm.trans hpadded) (by simp)

/-- The node that is simulated next reads what is offered: it has not demanded anything yet. -/
theorem Shape.read_next (h : r.Shape w x (engine.Needs w x) k q)
    (hr : Coherent w g nodes outputs done r) (hn : Next w g nodes done n)
    (hx : x ∈ (w.node n).inputs) :
    (r.read x (some n)).map PaddingValue.clone = some q := by
  obtain ⟨hgraph, hhas, -⟩ := hn.doneHas x (hn.inputs x hx)
  refine h.read_eq_of_consumer hr hgraph hhas ((hr.mem_consumers hgraph hhas).2 ⟨hn.mem, hx⟩) ?_
  intro i s hi hs hconst hmem
  obtain ⟨v, hv⟩ := Option.ne_none_iff_exists'.1 hconst
  obtain ⟨u, hneeds, -⟩ := (h.constants i s hi hs v hv).2.2 n hmem
  exact hr.fresh hgraph (List.mem_of_getElem? hs) hn.fresh (.inr (hneeds.applying?_eq_none x)) hmem

/-- What a node was found to hold is of its element type. -/
theorem Stepped.fits {content : Content} (h : Stepped w engine g n r r₁ content r')
    (hn : Next w g nodes done n) (hr : Coherent w g nodes outputs done r) :
    content.Fits (w.node n).dtype := by
  obtain ⟨p, r₂, hsimulate, hfits, hstore⟩ := yields_visit.1 h.visits
  obtain ⟨hgrown, -⟩ := simulated hn hr hsimulate
  have hcontent : ∀ {s : Run} (c : Content), s.entries.size = r.entries.size →
      ((s.store n c).entry n).padding = some ⟨c, some n, []⟩ := by
    intro s c hsize
    rw [entry_store (hsize ▸ hn.index_lt hr), if_pos rfl]
  have heq := hcontent content h.grown.size
  rw [hstore, hcontent p.content hgrown.size] at heq
  simp only [Option.some.injEq, PaddingValue.mk.injEq, and_true] at heq
  exact heq ▸ hfits

/-- **A whole run**: what was inferred about a node is of its element type. -/
theorem fits_of_simulateFrom (hw : w.WellFormed) {roots : List NodeRef}
    (hlists : w.Lists g roots nodes) {l rest : List NodeRef} {count i : Nat}
    (hsplit : nodes = done ++ (l ++ rest)) (hr : Coherent w g nodes outputs done r)
    (hfits : ∀ x ∈ done, ∀ p, (r.entry x).padding = some p → p.content.Fits (w.node x).dtype)
    (h : engine.simulateFrom w count i l r = .ok r') :
    ∀ x ∈ done ++ l, ∀ p, (r'.entry x).padding = some p → p.content.Fits (w.node x).dtype := by
  refine (simulateFrom_induction hw hlists
    (I := fun done r => ∀ x ∈ done, ∀ p, (r.entry x).padding = some p →
      p.content.Fits (w.node x).dtype) ?_ hsplit
    hr hfits h).2
  intro done n s s₁ content s' _ hn hs hstepped hfits y hy p hp
  rcases List.mem_append.1 hy with hy | hy
  · obtain ⟨hgraph, -, -⟩ := hn.doneHas y hy
    rw [hstepped.others hn hs hgraph fun hyn => hn.fresh (hyn ▸ hy)] at hp
    obtain ⟨p₀, hp₀, hcontent, -⟩ := exists_of_map_clone (hstepped.grown.padding y).symm hp
    exact hcontent ▸ hfits y hy p₀ hp₀
  · obtain rfl := List.mem_singleton.1 hy
    obtain ⟨-, -, hpadding, -⟩ := hstepped.own hn hs
    obtain ⟨p₀, hp₀, hcontent, -⟩ :=
      exists_of_map_clone (p := ⟨content, some y, []⟩) (o := some _) hpadding rfl
    obtain rfl := Option.some.inj (hp.symm.trans hp₀)
    exact hcontent ▸ hstepped.fits hn hs

/-- What the node that is simulated next reads is of the element type of its operand. -/
theorem fits_read_next (hr : Coherent w g nodes outputs done r) (hn : Next w g nodes done n)
    (hshape : ∃ k q, r.Shape w x (engine.Needs w x) k q)
    (hfits : ∀ p, (r.entry x).padding = some p → p.content.Fits (w.node x).dtype)
    (hx : x ∈ (w.node n).inputs) {p : PaddingValue} (hp : r.read x (some n) = some p) :
    p.content.Fits (w.node x).dtype := by
  obtain ⟨k, q, hshape⟩ := hshape
  have hread := hshape.read_next hr hn hx
  rw [hp, Option.map_some, Option.some.injEq] at hread
  have hoffered := hshape.offers.fits hfits
  rw [← hread] at hoffered
  exact hoffered

end Run

/-! ## Analyses that succeed -/

namespace Engine.Simulates

variable {w : Workspace} {engine : Engine} {roots : List NodeRef} {a : Analysis} {r : Run}

/-- Storing outputs does not change what was inferred. -/
theorem padding_eq (h : engine.Simulates w roots a r) {x : NodeRef} (hx : x.graph = a.graph) :
    (a.run.entry x).padding.map PaddingValue.clone =
      (r.entry x).padding.map PaddingValue.clone := by
  have hstores := h.stores
  rw [RunM.requireOutputs] at hstores
  split at hstores
  · obtain ⟨hkept, hstored⟩ := Run.exists_requireOutput (nodup_distinct _)
      (fun y hy => (h.lists.roots y (mem_distinct.1 hy)).1) h.coherent.size hx hstores
    by_cases hroot : x ∈ distinct roots
    · obtain ⟨s, s', hyields, hsize, hs, hs'⟩ := hstored hroot
      rw [hs', (Run.required_of_requireOutput hx
        (hsize.trans h.coherent.size) hyields).grown.padding, hs]
    · rw [hkept hroot]
  · rw [(RunM.yields_pure.1 hstores).2]

/-- What was inferred about a node is of its element type. -/
theorem fits (h : engine.Simulates w roots a r) (hw : w.WellFormed) {x : NodeRef} (hx : x ∈ a.nodes)
    {p : PaddingValue} (hp : (r.entry x).padding = some p) : p.content.Fits (w.node x).dtype := by
  have hsplit : a.nodes = [] ++ (a.nodes ++ []) := by simp
  have hinitial := Run.coherent_initial w a.graph a.nodes (distinct roots)
  exact Run.fits_of_simulateFrom hw h.lists hsplit hinitial (by simp) h.simulates x hx p hp

/-- The element type of an output with padding lanes has a zero, if outputs must leave
zero-filled. -/
theorem exists_zero (h : engine.Simulates w roots a r)
    (houtput : engine.outputPadding = true) {x : NodeRef} (hx : x ∈ roots)
    (hpadded : (w.node x).hasPadding = true) : ∃ zero, Scalar.zero (w.node x).dtype = .ok zero := by
  have hstores := h.stores
  rw [RunM.requireOutputs, if_pos houtput] at hstores
  obtain ⟨s, s', hyields, -⟩ := (Run.exists_requireOutput (nodup_distinct _)
    (fun y hy => (h.lists.roots y (mem_distinct.1 hy)).1) h.coherent.size
    (h.lists.roots x hx).1 hstores).2 (mem_distinct.2 hx)
  rcases RunM.yields_requireOutput.1 hyields with ⟨hfalse, -⟩ | ⟨-, zero, -, hzero, -⟩
  · exact absurd (hpadded.symm.trans hfalse) (by simp)
  · exact ⟨zero, hzero⟩

end Engine.Simulates

/-- What an analysis answers about a node is what its state knows. -/
theorem Engine.padding?_of_mem {w : Workspace} (hw : w.WellFormed) {engine : Engine}
    {roots : List NodeRef} {a : Analysis} (h : engine.analyze w roots = .ok a) {x : NodeRef}
    (hx : x ∈ a.nodes) :
    a.padding? x = (a.run.entry x).padding := by
  obtain ⟨r, hr⟩ := exists_simulates hw h
  rw [Analysis.padding?, if_pos (hr.lists.has x hx).1]

/-! ## Replaying an analysis -/

/-- **The nodes of one graph stand for nodes of another one**, and every tensor has to meet the same
rules in both. -/
structure Correspondence.Embeds (κ : Correspondence) (engine : Engine) (w : Workspace)
    (nodes : List NodeRef) (w' : Workspace) (nodes' : List NodeRef) :
    Prop extends κ.Consistent engine w w' where
  total : ∀ x ∈ nodes, ∃ x', κ.nodes x x'
  mem : ∀ x x', κ.nodes x x' → x ∈ nodes ∧ x' ∈ nodes'
  rules : ∀ x x', κ.nodes x x' → ∀ rule,
    (∃ c ∈ nodes, x ∈ (w.node c).inputs ∧ FaultRule.applying? w x c = some rule) ↔
      ∃ c' ∈ nodes', x' ∈ (w'.node c').inputs ∧ FaultRule.applying? w' x' c' = some rule

namespace Run

variable {w w' : Workspace} {engine : Engine} {κ : Correspondence} {g : Nat}
  {roots roots' nodes outputs done : List NodeRef} {x x' n n' : NodeRef} {a' : Analysis}
    {r r₁ r' s : Run}

/-- The simulated nodes hold what the nodes hold that they stand for. -/
structure Replays (κ : Correspondence) (engine : Engine) (w : Workspace) (done : List NodeRef)
    (r r' : Run) : Prop where
  shaped : ∀ x ∈ done, ∃ k q, r.Shape w x (engine.Needs w x) k q
  same : ∀ x ∈ done, ∀ x', κ.nodes x x' → SameOwn κ x x' r r'

/-- Corresponding tensors have to meet the same rules. -/
theorem mem_rules_iff_of_embeds {g' : Nat} {nodes' outputs' : List NodeRef}
    (hκ : κ.Embeds engine w nodes w' nodes') (hr : Counts w g nodes outputs r)
    (hr' : Counts w' g' nodes' outputs' r') (hx : κ.nodes x x') (hgraph : x.graph = g ∧ w.Has x)
    (hgraph' : x'.graph = g' ∧ w'.Has x') (rule : FaultRule) :
    rule ∈ r.rules w x ↔ rule ∈ r'.rules w' x' := by
  rw [hr.mem_rules_iff hgraph.1 hgraph.2, hr'.mem_rules_iff hgraph'.1 hgraph'.2, hκ.rules x x' hx]

/-- There is a fill for the next node if one is needed, as there is in the other graph. -/
theorem exists_fill_of_embeds (hn : Next w g nodes done n) (hr : Coherent w g nodes outputs done r)
    (hκ : κ.Embeds engine w nodes w' a'.nodes) (h' : engine.Simulates w' roots' a' r')
    (hnn' : κ.nodes n n') {content : Content} {p' : PaddingValue}
    (hp' : (r'.entry n').padding = some p') (hsame : κ.SameContent content p'.content)
    (hsensitive : r.sensitive w n ≠ [])
    (hsafe : isSafe (r.rules w n) (.ofContent content) = false) :
    ∃ v, FaultRule.fill? (r.rules w n) (w.node n).dtype (r.rules w n) = .ok (some v) := by
  have hrules := mem_rules_iff_of_embeds hκ hr.toCounts h'.coherent.toCounts hnn' ⟨hn.graph, hn.has⟩
    (h'.lists.has n' (hκ.mem n n' hnn').2)
  obtain ⟨k', q', hshape'⟩ := h'.shaped n' (hκ.mem n n' hnn').2
  cases hshape'.offers with
  | own _ _ hholds =>
    exfalso
    rcases hholds with hnone | ⟨p, v, hp, hv, hall⟩
    · obtain ⟨rule, hrule⟩ := List.exists_mem_of_ne_nil _ (mt sensitive_eq_nil_iff.2 hsensitive)
      have hmem := (hrules rule).1 hrule
      simp [sensitive_eq_nil_iff.1 hnone] at hmem
    · obtain rfl := Option.some.inj (hp.symm.trans hp')
      rw [hv] at hsame
      obtain rfl : content = .exact v := hsame.symm.of_exact
      rw [isSafe, PaddingValue.ofContent] at hsafe
      rw [← FaultRule.allSafe_congr hrules] at hall
      exact absurd (hsafe.symm.trans hall) (by simp)
  | @filled _ v _ _ _ _ _ hv =>
    rw [(hκ.same n n' hnn').dtype]
    exact ⟨v, FaultRule.fill?_congr hrules hv⟩

section Step

variable (h : Replays κ engine w done r r') (hn : Next w g nodes done n)
  (hr : Coherent w g nodes outputs done r) (hκ : κ.Embeds engine w nodes w' a'.nodes)
    (h' : engine.Simulates w' roots' a' r')
include h hn hr hκ h'

theorem Replays.offers (hx : x ∈ done) (hxx' : κ.nodes x x') {k k' : Nat} {q q' : PaddingValue}
    (hshape : r.Shape w x (engine.Needs w x) k q)
    (hshape' : r'.Shape w' x' (engine.Needs w' x') k' q') :
    κ.SamePadding q q' := by
  obtain ⟨hgraph, hhas, -⟩ := hn.doneHas x hx
  refine (hshape.offers.same hshape'.offers hxx' (hκ.same x x' hxx') (h.same x hx x' hxx') ?_).2
  exact mem_rules_iff_of_embeds hκ hr.toCounts h'.coherent.toCounts hxx' ⟨hgraph, hhas⟩
    (h'.lists.has x' (hκ.mem x x' hxx').2)

/-- The next node reads what the node reads that it stands for. -/
theorem Replays.sameReads (hnn' : κ.nodes n n')
    (hreal : (w.node n).op.isPointwise = true ∨ w.ReducesReal n) :
    κ.SameReads w n n' r r' := by
  intro x hx x' hxx'
  have hnode := hκ.same n n' hnn'
  obtain ⟨hgraph', hhas'⟩ := h'.lists.has x' (hκ.mem x x' hxx').2
  obtain ⟨k, q, hshape⟩ := h.shaped x (hn.inputs x hx)
  obtain ⟨k', q', hshape'⟩ := h'.shaped x' (hκ.mem x x' hxx').2
  have hconsumer := (h'.coherent.mem_consumers hgraph' hhas').2
    ⟨(hκ.mem n n' hnn').2, hκ.mem_inputs hnode hx hxx'⟩
  have hoffered := h.offers hn hr hκ h' (hn.inputs x hx) hxx' hshape hshape'
  obtain ⟨p, hp, rfl⟩ := Option.map_eq_some_iff.1 (hshape.read_next hr hn hx)
  obtain ⟨p', hp', rfl⟩ := Option.map_eq_some_iff.1
    (hshape'.read_of_real h'.coherent hgraph' hhas' hconsumer (hκ.real hnode hreal))
  rw [hp, hp']
  exact .some hoffered.of_clone

/-- The equation of the next node has the solution that it has in the other graph. -/
theorem Replays.exists_infer (hnn' : κ.nodes n n') :
    ∃ content p', r.infer w engine n = some content ∧ (r'.entry n').padding = some p' ∧
      κ.SameContent content p'.content := by
  obtain ⟨p', hp', -, hinfer'⟩ := (h'.settled n' (hκ.mem n n' hnn').2).holds
  have hinfer : Option.Rel κ.SameContent (r.infer w engine n) (r'.infer w' engine n') :=
    hκ.infer (hκ.same n n' hnn') hn.formed fun hreal => h.sameReads hn hr hκ h' hnn' hreal
  rw [hinfer'] at hinfer
  generalize r.infer w engine n = o at hinfer ⊢
  cases hinfer with
  | some hsame => exact ⟨_, p', rfl, hp', hsame⟩

/-- What the next node reads fits the element types of its inputs. -/
theorem Replays.fits_read (hw' : w'.WellFormed) (hx : x ∈ (w.node n).inputs) {p : PaddingValue}
    (hp : r.read x (some n) = some p) : p.content.Fits (w.node x).dtype := by
  have hdone := hn.inputs x hx
  obtain ⟨x', hxx'⟩ := hκ.total x (hn.doneHas x hdone).2.2
  refine fits_read_next hr hn (h.shaped x hdone) (fun p₀ hp₀ => ?_) hx hp
  obtain ⟨p₁, p', hp₁, hp', hsame⟩ := h.same x hdone x' hxx'
  obtain rfl := Option.some.inj (hp₀.symm.trans hp₁)
  rw [(hκ.same x x' hxx').dtype]
  exact hsame.fits (h'.fits hw' (hκ.mem x x' hxx').2 hp')

/-- **One step is replayed.** -/
theorem Replays.step (hw' : w'.WellFormed) : ∃ s, (engine.step w n).Yields r () s ∧
    Coherent w g nodes outputs (done ++ [n]) s ∧ Replays κ engine w (done ++ [n]) s r' := by
  obtain ⟨n', hnn'⟩ := hκ.total n hn.mem
  obtain ⟨content, p', hinfer, hp', hsame⟩ := h.exists_infer hn hr hκ h' hnn'
  have hfits : content.Fits (w.node n).dtype := by
    rw [(hκ.same n n' hnn').dtype]
    exact hsame.fits (h'.fits hw' (hκ.mem n n' hnn').2 hp')
  have hsimulated : ∀ x ∈ done, (r.entry x).padding.isSome = true := by
    intro x hx
    obtain ⟨x', hxx'⟩ := hκ.total x (hn.doneHas x hx).2.2
    obtain ⟨p, -, hp, -⟩ := h.same x hx x' hxx'
    simp [hp]
  obtain ⟨r₁, s, hstep, hstepped⟩ := exists_stepped_of_infer hn hr hsimulated
    (fun x hx p hp => h.fits_read hn hr hκ h' hw' hx hp) hinfer hfits
    fun hsensitive hsafe => exists_fill_of_embeds hn hr hκ h' hnn' hp' hsame hsensitive hsafe
  refine ⟨s, hstep, hr.step hn hstepped, ⟨fun x hx => ?_, fun x hx x' hxx' => ?_⟩⟩
  · rcases List.mem_append.1 hx with hx | hx
    · obtain ⟨k, q, hshape⟩ := h.shaped x hx
      exact ⟨k, q, hshape.step hx hr hn hstepped⟩
    · exact List.mem_singleton.1 hx ▸ hstepped.exists_shape hn hr
  · rcases List.mem_append.1 hx with hx | hx
    · obtain ⟨p, q', hp, hq', hold⟩ := h.same x hx x' hxx'
      have hentry := hstepped.others hn hr (hn.doneHas x hx).1 fun hxn => hn.fresh (hxn ▸ hx)
      obtain ⟨p₁, hp₁, hcontent, -⟩ := exists_of_map_clone (hstepped.grown.padding x) hp
      exact ⟨p₁, q', by rw [hentry, hp₁], hq', hcontent ▸ hold⟩
    · obtain rfl := List.mem_singleton.1 hx
      obtain rfl := hκ.unique.2 hnn' hxx'
      obtain ⟨-, -, hpadding, -⟩ := hstepped.own hn hr
      obtain ⟨p₁, hp₁, hcontent, -⟩ :=
        exists_of_map_clone (p := ⟨content, some x, []⟩) (o := some _) hpadding rfl
      exact ⟨p₁, p', hp₁, hp', hcontent ▸ hsame⟩

end Step

/-- **A simulation is replayed.** -/
theorem Replays.exists_simulateFrom (hκ : κ.Embeds engine w nodes w' a'.nodes)
    (h' : engine.Simulates w' roots' a' r') (hw : w.WellFormed) (hw' : w'.WellFormed)
    (hlists : w.Lists g roots nodes) (count i : Nat) {l : List NodeRef} (hsplit : nodes = done ++ l)
    (hr : Coherent w g nodes outputs done r) (h : Replays κ engine w done r r') :
    ∃ s, engine.simulateFrom w count i l r = .ok s ∧ Coherent w g nodes outputs nodes s ∧
      Replays κ engine w nodes s r' := by
  induction l generalizing done r i with
  | nil =>
    obtain rfl : nodes = done := by rw [hsplit, List.append_nil]
    exact ⟨r, rfl, hr, h⟩
  | cons n l ih =>
    have hn := next_of_lists hw hlists hsplit
    obtain ⟨s, hstep, hs, hsame⟩ := h.step hn hr hκ h' hw'
    have hon : (engine.step w n).on r = (.ok (), s) := hstep
    rw [Engine.simulateFrom, hon]
    exact ih (i + 1) (by simp [hsplit]) hs hsame

end Run

namespace Correspondence

variable {w w' : Workspace} {engine : Engine} {κ : Correspondence}
  {roots roots' nodes : List NodeRef} {a a' : Analysis}

/-- **The analysis of a graph is replayed** on a graph whose nodes stand for nodes of the first
one. -/
theorem Embeds.exists_analyze (hw : w.WellFormed) (hw' : w'.WellFormed) (hne : roots ≠ [])
    (hreach : w.reachable roots = .ok nodes) (h' : engine.analyze w' roots' = .ok a')
    (hκ : κ.Embeds engine w nodes w' a'.nodes) (hroots : ∀ x ∈ roots, ∃ x' ∈ roots', κ.nodes x x') :
    ∃ a, engine.analyze w roots = .ok a ∧ a.nodes = nodes ∧
      ∀ x x', κ.nodes x x' → Run.SameOwn κ x x' a.run a'.run := by
  obtain ⟨r', hr'⟩ := engine.exists_simulates hw' h'
  obtain ⟨first, rest, rfl⟩ := List.exists_cons_of_ne_nil hne
  have hlists := Workspace.lists_of_reachable hw hreach
  have hinitial := Run.coherent_initial w first.graph nodes (distinct (first :: rest))
  obtain ⟨s, hsimulated, hs, hsame⟩ :=
    Run.Replays.exists_simulateFrom hκ hr' hw hw' hlists nodes.length 0
    (List.nil_append nodes).symm hinitial ⟨by simp, by simp⟩
  -- the outputs are outputs of the other graph, too
  obtain ⟨u, final, houtputs, -⟩ :
      (RunM.requireOutputs w engine (distinct (first :: rest))).Succeeds s fun _ t =>
      t.entries.size = s.entries.size ∧ ∀ x ∈ nodes, (t.entry x).padding.isSome = true := by
    refine RunM.succeeds_requireOutputs ?_ ?_ ?_ ⟨rfl, fun x hx => ?_⟩
    · intro houtput x hx hpadded
      obtain ⟨x', hx', hxx'⟩ := hroots x (mem_distinct.1 hx)
      have hnode := hκ.same x x' hxx'
      rw [hnode.dtype]
      refine hr'.exists_zero houtput hx' ?_
      rwa [Node.hasPadding, ← hnode.axes]
    · rintro t ⟨hsize, hpadding⟩ x hx hpadded
      obtain ⟨hgraph, hmem⟩ := hlists.roots x (mem_distinct.1 hx)
      have hhas := Run.has_of_hasPadding hpadded
      exact ⟨hsize ▸ hs.toCounts.index_lt hgraph hhas, hpadding x (hmem hhas)⟩
    · rintro t t' c x b hx hupdate ⟨hsize, hpadding⟩
      exact ⟨hupdate.size.trans hsize, fun y hy => hupdate.isSome_padding (hpadding y hy)⟩
    · obtain ⟨x', hxx'⟩ := hκ.total x hx
      obtain ⟨p, -, hp, -⟩ := hsame.same x hx x' hxx'
      simp [hp]
  have ha : engine.analyze w (first :: rest) = .ok ⟨first.graph, nodes, final⟩ :=
    Engine.analyze_eq_ok.2 ⟨first, rest, s, rfl, rfl, hreach, hsimulated, houtputs⟩
  refine ⟨_, ha, rfl, fun x x' hxx' => ?_⟩
  obtain ⟨s', hs'⟩ := engine.exists_simulates hw ha
  obtain rfl : s = s' := Except.ok.inj (hsimulated.symm.trans hs'.simulates)
  obtain ⟨hx, hx'⟩ := hκ.mem x x' hxx'
  exact (hsame.same x hx x' hxx').congr (hs'.padding_eq (hlists.has x hx).1)
    (hr'.padding_eq (hr'.lists.has x' hx').1)

end Correspondence
end LanePadding
