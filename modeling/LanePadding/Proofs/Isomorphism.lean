import LanePadding.Proofs.LaneFixes
import LanePadding.Proofs.Replay
import LanePadding.Proofs.Representation

/-!
# Actions on graphs that are the same up to names

Suppose that the nodes of two graphs stand for each other, one by one, and that both graphs were
analysed.  Each analysis can be replayed on the other graph, so they found the same in padding
lanes.  They also act the same, although they came across consumers in different orders.  A tensor
may have a setting that makes it safe, which depends on what it holds and on the rules of its
consumers, and every other setting is there because somebody demanded it.  Who demands what does not
depend on the order either: a reduction demands its neutral element if that is not offered, the
store of an output demands zeros, and a pointwise node demands copies of lane 0 of the operands it
looks at.

Constants are compared as scalars are.  Two consumers may demand zeros of different signs, which are
one setting, and the first one decides which of them is written.

## What is here

* `Correspondence.Isomorphism` — the nodes of two graphs stand for each other.
* `Engine.Ended` — what is known of the settings of an analysis in the end.
* `Correspondence.Agrees.exists_sameSetting` — every setting has a counterpart.
* `Correspondence.Agrees.exists_perm_actions` — the actions are the same, in another order.
-/

set_option autoImplicit false

namespace LanePadding

/-! ## Lists that match -/

/-- Lists whose elements match each other are the same list in another order, if no two elements
match the same one. -/
theorem exists_perm_forall₂ {α β : Type} {R : α → β → Prop} {l : List α} {l' : List β}
    (hl : ∀ a ∈ l, ∃ b ∈ l', R a b) (hl' : ∀ b ∈ l', ∃ a ∈ l, R a b)
    (hleft : l.Pairwise fun a₁ a₂ => ∀ b, R a₁ b → ¬R a₂ b)
    (hright : l'.Pairwise fun b₁ b₂ => ∀ a, R a b₁ → ¬R a b₂) :
    ∃ m, m.Perm l' ∧ List.Forall₂ R l m := by
  induction l generalizing l' with
  | nil =>
    have hnil : l' = [] := List.eq_nil_iff_forall_not_mem.2 fun b hb => by simpa using hl' b hb
    exact ⟨[], by rw [hnil], .nil⟩
  | cons a l ih =>
    obtain ⟨b, hb, hab⟩ := hl a List.mem_cons_self
    obtain ⟨s, t, rfl⟩ := List.append_of_mem hb
    have hfront : (s ++ b :: t).Perm (b :: (s ++ t)) := List.perm_middle
    obtain ⟨hothers, htail⟩ := List.pairwise_cons.1 hleft
    obtain ⟨hothers', htail'⟩ := List.pairwise_cons.1
      ((hfront.pairwise_iff fun h a h₂ h₁ => h a h₁ h₂).1 hright)
    have hrest : ∀ a₁ ∈ l, ∃ b₁ ∈ s ++ t, R a₁ b₁ := by
      intro a₁ ha₁
      obtain ⟨b₁, hb₁, hab₁⟩ := hl a₁ (List.mem_cons_of_mem _ ha₁)
      rcases List.mem_cons.1 (hfront.mem_iff.1 hb₁) with rfl | hb₁
      · exact absurd hab₁ (hothers a₁ ha₁ b₁ hab)
      · exact ⟨b₁, hb₁, hab₁⟩
    have hrest' : ∀ b₁ ∈ s ++ t, ∃ a₁ ∈ l, R a₁ b₁ := by
      intro b₁ hb₁
      obtain ⟨a₁, ha₁, hab₁⟩ := hl' b₁ (hfront.mem_iff.2 (List.mem_cons_of_mem _ hb₁))
      rcases List.mem_cons.1 ha₁ with rfl | ha₁
      · exact absurd hab₁ (hothers' b₁ hb₁ a₁ hab)
      · exact ⟨a₁, ha₁, hab₁⟩
    obtain ⟨m, hm, hsame⟩ := ih hrest hrest' htail htail'
    exact ⟨b :: m, (hm.cons b).trans hfront.symm, .cons hab hsame⟩

/-- What holds of the elements with one key holds of all elements. -/
theorem pairwise_of_filter {α β : Type} [DecidableEq β] {R : α → α → Prop}
    {key : α → β} {l : List α} (h : ∀ k, (l.filter fun a => key a = k).Pairwise R) :
    l.Pairwise fun a b => key a = key b → R a b := by
  induction l with
  | nil => exact .nil
  | cons a l ih =>
    refine .cons (fun b hb hkey => ?_) (ih fun k => ?_)
    · have hhead := h (key a)
      rw [List.filter_cons_of_pos (by simp)] at hhead
      exact (List.pairwise_cons.1 hhead).1 b (List.mem_filter.2 ⟨hb, by simp [hkey]⟩)
    · exact (h k).sublist ((List.sublist_cons_self a l).filter _)

namespace Correspondence

/-! ## Graphs that are the same up to names -/

/-- The nodes in the lists stand for each other, in any order. -/
structure SameNodes (κ : Correspondence) (l l' : List NodeRef) : Prop where
  left : ∀ x ∈ l, ∃ x' ∈ l', κ.nodes x x'
  right : ∀ x' ∈ l', ∃ x ∈ l, κ.nodes x x'

/-- **The nodes of the two graphs stand for each other**, and so do their outputs. -/
structure Isomorphism (κ : Correspondence) (engine : Engine) (w : Workspace)
    (roots nodes : List NodeRef) (w' : Workspace) (roots' nodes' : List NodeRef) :
    Prop extends κ.Consistent engine w w' where
  all : κ.SameNodes nodes nodes'
  mem : ∀ x x', κ.nodes x x' → x ∈ nodes ∧ x' ∈ nodes'
  outputs : κ.SameNodes roots roots'

section

variable {κ : Correspondence} {engine : Engine} {w w' : Workspace}
  {l l' roots roots' nodes nodes' : List NodeRef} {x x' c c' : NodeRef}

theorem SameNodes.nil : κ.SameNodes [] [] := ⟨by simp, by simp⟩

theorem SameNodes.symm (h : κ.SameNodes l l') : κ.symm.SameNodes l' l := ⟨h.right, h.left⟩

theorem SameNodes.eq_nil_iff (h : κ.SameNodes l l') : l = [] ↔ l' = [] := by
  constructor
  · rintro rfl
    exact List.eq_nil_iff_forall_not_mem.2 fun x' hx' => by simpa using h.right x' hx'
  · rintro rfl
    exact List.eq_nil_iff_forall_not_mem.2 fun x hx => by simpa using h.left x hx

theorem SameNodes.mem_iff (h : κ.SameNodes l l') (hκ : Relator.BiUnique κ.nodes)
    (hx : κ.nodes x x') :
    x ∈ l ↔ x' ∈ l' := by
  constructor
  · intro hmem
    obtain ⟨y', hy', hxy'⟩ := h.left x hmem
    exact hκ.2 hxy' hx ▸ hy'
  · intro hmem
    obtain ⟨y, hy, hyx'⟩ := h.right x' hmem
    exact hκ.1 hyx' hx ▸ hy

theorem SameNodes.length_eq (h : κ.SameNodes l l') (hκ : Relator.BiUnique κ.nodes) (hl : l.Nodup)
    (hl' : l'.Nodup) :
    l.length = l'.length := by
  obtain ⟨m, hm, hsame⟩ := exists_perm_forall₂ h.left h.right
    (hl.imp fun hne _ hx hy => hne (hκ.1 hx hy)) (hl'.imp fun hne _ hx hy => hne (hκ.2 hx hy))
  rw [hsame.length_eq, hm.length_eq]

theorem Isomorphism.symm (h : κ.Isomorphism engine w roots nodes w' roots' nodes') :
    κ.symm.Isomorphism engine w' roots' nodes' w roots nodes where
  toConsistent := h.toConsistent.symm
  all := h.all.symm
  mem x' x hx := (h.mem x x' hx).symm
  outputs := h.outputs.symm

/-- The operands at one place stand for each other. -/
theorem Consistent.getElem?_operands (h : κ.Consistent engine w w') {n n' : Node}
    (hn : κ.SameNode n n') (hx : κ.nodes x x') {i : Nat} (hi : n.operands[i]? = some (.node x)) :
    n'.operands[i]? = some (.node x') := by
  have hoperands : ∀ {l l' : List Operand}, List.Forall₂ κ.SameOperand l l' →
      ∀ {i : Nat}, l[i]? = some (.node x) → l'[i]? = some (.node x') := by
    intro l l' hl
    induction hl with
    | nil => simp
    | cons hab _ ih =>
      intro i hi
      cases i with
      | zero =>
        obtain rfl := Option.some.inj hi
        cases hab with
        | node hy => exact congrArg (some ∘ Operand.node) (h.unique.2 hy hx)
      | succ i => exact ih hi
  exact hoperands hn.operands hi

/-- Consumers that stand for each other have the same rules. -/
theorem Consistent.applying? (h : κ.Consistent engine w w') (hx : κ.nodes x x') (hc : κ.nodes c c')
    {rule : FaultRule} (hrule : FaultRule.applying? w x c = some rule) :
    FaultRule.applying? w' x' c' = some rule := by
  rw [FaultRule.applying?_eq_some_iff] at hrule ⊢
  obtain ⟨hfaults, hreads⟩ := hrule
  have hnode := h.same c c' hc
  have hop : ∀ {op : Op}, op.kind ≠ .placeholder → (w.node c).op = op → (w'.node c').op = op := by
    rintro op hkind rfl
    exact (hnode.op.eq_of_kind_ne hkind).symm
  refine ⟨?_, ?_⟩
  · cases hfaults with
    | log hlog => exact .log (hop (by simp [Op.kind]) hlog)
    | rsqrt hrsqrt => exact .rsqrt (hop (by simp [Op.kind]) hrsqrt)
    | reciprocal hreciprocal => exact .reciprocal (hop (by simp [Op.kind]) hreciprocal)
    | sqrt hsqrt => exact .sqrt (hop (by simp [Op.kind]) hsqrt)
    | div hdiv hdivisor =>
      exact .div (hop (by simp [Op.kind]) hdiv) (h.getElem?_operands hnode hx hdivisor)
  · rwa [Node.readsOwnPadding, ← hnode.alignedAxes_eq (h.same x x' hx)]

/-- The rules that a tensor has to meet are those of its counterpart. -/
theorem Isomorphism.exists_applying? (h : κ.Isomorphism engine w roots nodes w' roots' nodes')
    (hx : κ.nodes x x') {rule : FaultRule}
    (hrule : ∃ c ∈ nodes, x ∈ (w.node c).inputs ∧ FaultRule.applying? w x c = some rule) :
    ∃ c' ∈ nodes', x' ∈ (w'.node c').inputs ∧ FaultRule.applying? w' x' c' = some rule := by
  obtain ⟨c, hc, hinput, hrule⟩ := hrule
  obtain ⟨c', hc', hcc'⟩ := h.all.left c hc
  exact ⟨c', hc', h.mem_inputs (h.same c c' hcc') hinput hx, h.applying? hx hcc' hrule⟩

theorem Isomorphism.embeds (h : κ.Isomorphism engine w roots nodes w' roots' nodes') :
    κ.Embeds engine w nodes w' nodes' := by
  constructor
  case toConsistent => exact h.toConsistent
  case total =>
    intro x hx
    obtain ⟨x', -, hxx'⟩ := h.all.left x hx
    exact ⟨x', hxx'⟩
  case mem => exact h.mem
  case rules => exact fun x x' hx rule => ⟨h.exists_applying? hx, h.symm.exists_applying? hx⟩

end
end Correspondence

/-! ## Analyses in the end -/

theorem Setting.isTargeted_eq_iff {s s' : Setting} :
    s.isTargeted = s'.isTargeted ↔ (s.targets = [] ↔ s'.targets = []) := by
  rw [isTargeted, isTargeted, Bool.not_inj_iff, Bool.eq_iff_iff, List.isEmpty_iff, List.isEmpty_iff]

/-- The settings of a tensor are there for its readers, who all have what they require. -/
structure Run.Shared (w : Workspace) (engine : Engine) (nodes outputs : List NodeRef) (r : Run)
    (x : NodeRef) (k : Nat) (q : PaddingValue) : Prop where
  shape : r.Shape w x (engine.Requires w outputs x) k q
  served : ∀ c ∈ nodes, ∀ v, engine.Requires w outputs x c v → q.isExact v = true ∨
    ∃ s ∈ (r.entry x).settings, s.constant? ≠ none ∧ c ∈ s.demandedBy

theorem Run.Closed.offers {w : Workspace} {engine : Engine} {nodes outputs : List NodeRef}
    {r : Run} {x : NodeRef} {k : Nat} {q : PaddingValue}
    (h : r.Closed w engine nodes outputs x k q) : r.Offers w x k q := by
  cases h with
  | shared hshape => exact hshape.offers
  | lone hk hoffers => exact hk ▸ hoffers

/-- What is known of the settings of an analysis in the end. -/
structure Engine.Ended (engine : Engine) (w : Workspace) (roots : List NodeRef) (a : Analysis) :
    Prop where
  formed : w.WellFormed
  lists : w.Lists a.graph roots a.nodes
  outcome : a.run.Outcome w engine a.graph a.nodes (distinct roots)
  regular : a.run.Regular w a.graph a.nodes
  closed : ∀ x ∈ a.nodes, ∃ k q, a.run.Closed w engine a.nodes (distinct roots) x k q
  demanders : ∀ x ∈ a.nodes, ∀ s ∈ (a.run.entry x).settings, ∀ c ∈ s.demandedBy,
    c ∈ (a.run.entry x).consumers ∨ c = x ∧ 1 < (a.run.entry x).readers
  unique : ∀ x ∈ a.nodes, ∀ c u u', engine.Requires w (distinct roots) x c u →
    engine.Requires w (distinct roots) x c u' → u = u'

namespace Engine

variable {engine : Engine} {w : Workspace} {roots : List NodeRef} {a : Analysis} {x c : NodeRef}

theorem ended_of_analyze (hw : w.WellFormed) (h : engine.analyze w roots = .ok a) :
    engine.Ended w roots a := by
  obtain ⟨hlists, houtcome⟩ := outcome_of_analyze hw h
  obtain ⟨r, hsimulates⟩ := exists_simulates hw h
  obtain ⟨first, tail, -, rfl, hgraph, -⟩ := analyze_eq_ok.1 h
  constructor
  case formed => exact hw
  case lists => exact hlists
  case outcome => exact houtcome
  case regular => exact hgraph ▸ (Stage.regular hw (.ended h)).1
  case closed =>
    intro x hx
    obtain ⟨k, q, hshape⟩ := hsimulates.shaped x hx
    exact ⟨k, q, hsimulates.closed hw hx hshape⟩
  case demanders =>
    intro x hx s hs c hc
    exact (hsimulates.mem_demandedBy hx hs hc).imp_right fun hself => ⟨hself.1, hself.2.2⟩
  case unique => exact fun x hx => (hsimulates.decides hw houtcome.toCounts hx).unique

namespace Ended

variable (h : engine.Ended w roots a)
include h

theorem mem_consumers (hx : x ∈ a.nodes) :
    c ∈ (a.run.entry x).consumers ↔ c ∈ a.nodes ∧ x ∈ (w.node c).inputs :=
  h.outcome.mem_consumers (h.lists.has x hx).1 (h.lists.has x hx).2

/-- Settings are demanded by analysed nodes. -/
theorem mem_of_mem_demandedBy (hx : x ∈ a.nodes) {s : Setting} (hs : s ∈ (a.run.entry x).settings)
    (hc : c ∈ s.demandedBy) : c ∈ a.nodes := by
  rcases h.demanders x hx s hs c hc with hconsumer | ⟨rfl, -⟩
  · exact ((h.mem_consumers hx).1 hconsumer).1
  · exact hx

theorem nodup_consumers (hx : x ∈ a.nodes) : (a.run.entry x).consumers.Nodup := by
  obtain ⟨hgraph, hhas⟩ := h.lists.has x hx
  rw [h.outcome.consumers x hgraph hhas]
  exact List.Nodup.filter _ (nodup_of_sorted_index h.lists.sorted)

theorem emits (hx : x ∈ a.nodes) : a.run.Emits x := h.outcome.emits x (h.lists.has x hx).1

/-- No two actions write the same into a tensor for the same readers. -/
theorem pairwise_actions : a.actions.Pairwise fun b₁ b₂ => b₁.tensor = b₂.tensor →
    ¬(b₁.fill.equal b₂.fill = true ∧ (b₁.targets = [] ↔ b₂.targets = [])) := by
  refine pairwise_of_filter fun x => ?_
  by_cases hx : x ∈ a.nodes
  · rw [Analysis.actions, (h.emits hx).actions_filter, List.pairwise_map]
    simp only [← Setting.isTargeted_eq_iff]
    exact (h.regular.distinct x).fills
  · have hnone : a.actions.filter (·.tensor = x) = [] := by
      refine List.filter_eq_nil_iff.2 fun b hb htensor => hx ?_
      exact of_decide_eq_true htensor ▸ h.regular.tensor_mem hb
    rw [hnone]
    exact .nil

/-- **Pointwise consumers read what is offered**, also after the outputs are stored. -/
theorem read_of_isPointwise {k : Nat} {q : PaddingValue} (hx : x ∈ a.nodes)
    (hclosed : a.run.Closed w engine a.nodes (distinct roots) x k q)
    (hc : c ∈ (a.run.entry x).consumers) (hpoint : (w.node c).op.isPointwise = true) :
    (a.run.read x (some c)).map PaddingValue.clone = some q := by
  cases hclosed with
  | lone _ _ _ _ _ _ hconsumers => simp [hconsumers] at hc
  | shared hshape _ =>
    refine hshape.read_eq fun i s hi hs hconst => ?_
    have hmem := List.mem_of_getElem? hs
    obtain ⟨v, hv⟩ := Option.ne_none_iff_exists'.1 hconst
    obtain ⟨-, hsome, hneeds⟩ := hshape.constants i s hi hs v hv
    have hnot : c ∉ s.demandedBy := by
      intro hdemands
      obtain ⟨u, hu | ⟨rfl, -⟩, -⟩ := hneeds c hdemands
      · exact absurd (hpoint.symm.trans hu.isPointwise_eq_false) (by simp)
      · exact h.formed.not_mem_inputs (h.lists.has c hx).2 ((h.mem_consumers hx).1 hc).2
    refine ⟨?_, ?_⟩
    · rintro ⟨c₀, hc₀, hdemands⟩
      exact hnot (Option.some.inj hc₀ ▸ hdemands)
    · rw [hshape.targeted i s hi hs, decide_eq_true_iff]
      obtain ⟨d, hd⟩ := List.exists_mem_of_ne_nil _ hsome
      rcases h.demanders x hx s hmem d hd with hconsumer | ⟨-, hreaders⟩
      · exact h.outcome.one_lt_readers (h.lists.has x hx).1 (h.lists.has x hx).2 hc hconsumer
          fun hcd => hnot (hcd ▸ hd)
      · exact hreaders

end Ended
end Engine

/-! ## Analyses that agree -/

namespace Correspondence

/-- Fills that write the same.  Copies of lane 0 are made of tensors that stand for each other. -/
inductive SameFill (κ : Correspondence) : Fill → Fill → Prop
  | constant {v v' : Scalar} (h : v.equal v' = true) : SameFill κ (.constant v) (.constant v')
  | position {x x' : NodeRef} (h : κ.nodes x x') (axes : List Int) :
      SameFill κ (.position ⟨x, axes⟩) (.position ⟨x', axes⟩)

/-- The same is written, for the same readers. -/
structure SameSetting (κ : Correspondence) (s s' : Setting) : Prop where
  fill : κ.SameFill s.fill s'.fill
  targets : κ.SameNodes s.targets s'.targets

/-- The actions are the same, whatever the order of their targets. -/
structure SameAction (κ : Correspondence) (b b' : Action) : Prop where
  tensor : κ.nodes b.tensor b'.tensor
  fill : κ.SameFill b.fill b'.fill
  targets : κ.SameNodes b.targets b'.targets

/-- **Analyses of two graphs that are the same up to names**: nodes that stand for each other hold
the same. -/
structure Agrees (κ : Correspondence) (engine : Engine) (w : Workspace) (roots : List NodeRef)
    (a : Analysis) (w' : Workspace) (roots' : List NodeRef) (a' : Analysis) : Prop where
  isomorphism : κ.Isomorphism engine w roots a.nodes w' roots' a'.nodes
  ended : engine.Ended w roots a
  ended' : engine.Ended w' roots' a'
  own : ∀ x x', κ.nodes x x' → Run.SameOwn κ x x' a.run a'.run

variable {κ : Correspondence} {engine : Engine} {w w' : Workspace} {roots roots' : List NodeRef}
  {a a' : Analysis} {x x' c c' : NodeRef} {k k' : Nat} {q q' : PaddingValue}

theorem SameFill.symm {f f' : Fill} (h : κ.SameFill f f') : κ.symm.SameFill f' f := by
  cases h with
  | constant h => exact .constant (Scalar.equal_symm h)
  | @position x x' h axes =>
    have hsymm : κ.symm.nodes x' x := h
    exact .position hsymm axes

/-- Fills are the same as one fill only if they are equal. -/
theorem SameFill.equal (hκ : Relator.BiUnique κ.nodes) {f f' f'' : Fill} (h : κ.SameFill f f')
    (h' : κ.SameFill f f'') :
    f'.equal f'' = true := by
  cases h with
  | constant h =>
    cases h' with
    | constant h' => exact Scalar.equal_trans (Scalar.equal_symm h) h'
  | position h axes =>
    cases h' with
    | position h' =>
      obtain rfl := hκ.2 h h'
      exact Fill.equal_refl _

namespace Agrees

theorem symm (h : κ.Agrees engine w roots a w' roots' a') :
    κ.symm.Agrees engine w' roots' a' w roots a where
  isomorphism := h.isomorphism.symm
  ended := h.ended'
  ended' := h.ended
  own x' x hx := (h.own x x' hx).symm

variable (h : κ.Agrees engine w roots a w' roots' a')
include h

theorem mem_roots_iff (hx : κ.nodes x x') : x ∈ distinct roots ↔ x' ∈ distinct roots' := by
  rw [mem_distinct, mem_distinct, h.isomorphism.outputs.mem_iff h.isomorphism.unique hx]

theorem exists_mem_consumers (hx : κ.nodes x x') :
    ∀ c ∈ (a.run.entry x).consumers, ∃ c' ∈ (a'.run.entry x').consumers, κ.nodes c c' := by
  intro c hc
  obtain ⟨hmem, hmem'⟩ := h.isomorphism.mem x x' hx
  obtain ⟨hcnodes, hinput⟩ := (h.ended.mem_consumers hmem).1 hc
  obtain ⟨c', hc', hcc'⟩ := h.isomorphism.all.left c hcnodes
  refine ⟨c', (h.ended'.mem_consumers hmem').2 ⟨hc', ?_⟩, hcc'⟩
  exact h.isomorphism.mem_inputs (h.isomorphism.same c c' hcc') hinput hx

theorem sameNodes_consumers (hx : κ.nodes x x') :
    κ.SameNodes (a.run.entry x).consumers (a'.run.entry x').consumers :=
  ⟨h.exists_mem_consumers hx, h.symm.exists_mem_consumers hx⟩

theorem readers_eq (hx : κ.nodes x x') : (a.run.entry x).readers = (a'.run.entry x').readers := by
  obtain ⟨hmem, hmem'⟩ := h.isomorphism.mem x x' hx
  obtain ⟨hgraph, hhas⟩ := h.ended.lists.has x hmem
  obtain ⟨hgraph', hhas'⟩ := h.ended'.lists.has x' hmem'
  have hlength := (h.sameNodes_consumers hx).length_eq h.isomorphism.unique
    (h.ended.nodup_consumers hmem) (h.ended'.nodup_consumers hmem')
  rw [h.ended.outcome.readers x hgraph hhas, h.ended'.outcome.readers x' hgraph' hhas', hlength]
  simp only [h.mem_roots_iff hx]

/-- Tensors that stand for each other offer the same. -/
theorem offers (hx : κ.nodes x x') (hoffers : a.run.Offers w x k q)
    (hoffers' : a'.run.Offers w' x' k' q') :
    k = k' ∧ κ.SamePadding q q' := by
  obtain ⟨hmem, hmem'⟩ := h.isomorphism.mem x x' hx
  exact hoffers.same hoffers' hx (h.isomorphism.same x x' hx) (h.own x x' hx)
    (Run.mem_rules_iff_of_embeds h.isomorphism.embeds h.ended.outcome.toCounts
      h.ended'.outcome.toCounts hx (h.ended.lists.has x hmem) (h.ended'.lists.has x' hmem'))

/-- Readers that stand for each other require the same. -/
theorem requires (hx : κ.nodes x x') (hc : κ.nodes c c') {v : Scalar}
    (hrequires : engine.Requires w (distinct roots) x c v) :
    engine.Requires w' (distinct roots') x' c' v := by
  have hnode := h.isomorphism.same x x' hx
  rcases hrequires with
    ⟨fn, axes, keep, hop, hoperands, hpadded, hv⟩ | ⟨rfl, hroot, houtput, hpadded, rfl⟩
  · left
    have hconsumer := h.isomorphism.same c c' hc
    obtain ⟨y', hy', hxy', -⟩ := h.isomorphism.reduced hconsumer hoperands
    obtain rfl := h.isomorphism.unique.2 hx hxy'
    refine ⟨fn, axes, keep, ?_, hy', ?_, hnode.dtype ▸ hv⟩
    · exact (hconsumer.op.eq_of_kind_ne (by simp [hop, Op.kind])).symm.trans hop
    · rwa [Node.paddedAxes, Node.rank, ← hnode.axes]
  · obtain rfl := h.isomorphism.unique.2 hx hc
    refine .inr ⟨rfl, (h.mem_roots_iff hx).1 hroot, houtput, ?_, by rw [hnode.dtype]⟩
    rwa [Node.hasPadding, ← hnode.axes]

/-- Pointwise nodes that stand for each other read the same. -/
theorem sameReads (hc : κ.nodes c c') (hpoint : (w.node c).op.isPointwise = true) :
    κ.SameReads w c c' a.run a'.run := by
  intro x hinput x' hx
  obtain ⟨hmem, hmem'⟩ := h.isomorphism.mem x x' hx
  have hnode := h.isomorphism.same c c' hc
  have hconsumer := (h.ended.mem_consumers hmem).2 ⟨(h.isomorphism.mem c c' hc).1, hinput⟩
  have hconsumer' := (h.ended'.mem_consumers hmem').2
    ⟨(h.isomorphism.mem c c' hc).2, h.isomorphism.mem_inputs hnode hinput hx⟩
  obtain ⟨k, q, hclosed⟩ := h.ended.closed x hmem
  obtain ⟨k', q', hclosed'⟩ := h.ended'.closed x' hmem'
  obtain ⟨-, hoffered⟩ := h.offers hx hclosed.offers hclosed'.offers
  obtain ⟨p, hp, rfl⟩ :=
    Option.map_eq_some_iff.1 (h.ended.read_of_isPointwise hmem hclosed hconsumer hpoint)
  obtain ⟨p', hp', rfl⟩ := Option.map_eq_some_iff.1
    (h.ended'.read_of_isPointwise hmem' hclosed' hconsumer' (hnode.op.isPointwise_eq ▸ hpoint))
  rw [hp, hp']
  exact .some hoffered.of_clone

/-- Pointwise nodes that stand for each other look at the same operands. -/
theorem mem_viewedOperands (hx : κ.nodes x x') (hc : κ.nodes c c')
    (hpoint : (w.node c).op.isPointwise = true)
    (hviewed : .node x ∈ a.run.viewedOperands w engine c) :
    .node x' ∈ a'.run.viewedOperands w' engine c' := by
  obtain ⟨hmem, hmem'⟩ := h.isomorphism.mem c c' hc
  have hnode := h.isomorphism.same c c' hc
  have hop : (w.node c).op = (w'.node c').op :=
    hnode.op.eq_of_kind_ne
      fun hkind => by cases hop : (w.node c).op <;> simp_all [Op.kind, Op.isPointwise]
  rw [Run.mem_viewedOperands_iff (h.ended.formed c (h.ended.lists.has c hmem).2).arity] at hviewed
  rw [Run.mem_viewedOperands_iff (h.ended'.formed c' (h.ended'.lists.has c' hmem').2).arity]
  obtain ⟨i, hi, hkept⟩ := hviewed
  refine ⟨i, h.isomorphism.getElem?_operands hnode hx hi, ?_⟩
  rintro ⟨t, f, v, hbranches, hcond, hi'⟩
  have hsame := h.isomorphism.condition? hnode hop.symm (h.sameReads hc hpoint)
  rw [hcond] at hsame
  refine hkept ⟨t, f, v, hop ▸ hbranches, ?_, hi'⟩
  generalize a.run.condition? w engine c = o at hsame ⊢
  cases hsame with
  | some hsame => rw [hsame.symm.of_exact]

/-- A constant that a reader demanded is one that its counterpart demanded, too. -/
theorem exists_demanded_constant (hx : κ.nodes x x')
    (hshape : a.run.Shape w x (engine.Requires w (distinct roots) x) k q)
    (hshared' : a'.run.Shared w' engine a'.nodes (distinct roots') x' k' q') {i : Nat} {s : Setting}
    (hi : k ≤ i) (hs : (a.run.entry x).settings[i]? = some s) {v : Scalar}
    (hfill : s.fill = .constant v) (hc : c ∈ s.demandedBy) (hcc' : κ.nodes c c') :
    ∃ (j : Nat) (s' : Setting), k' ≤ j ∧ (a'.run.entry x').settings[j]? = some s' ∧
      κ.SameFill (.constant v) s'.fill ∧ c' ∈ s'.demandedBy := by
  obtain ⟨hshape', hserved'⟩ := hshared'
  obtain ⟨-, hoffered⟩ := h.offers hx hshape.offers hshape'.offers
  obtain ⟨hother, -, hneeds⟩ := hshape.constants i s hi hs v (by rw [Setting.constant?, hfill])
  obtain ⟨u, hu, huv⟩ := hneeds c hc
  have hu' := h.requires hx hcc' hu
  have hother' : q'.isExact u = false := by
    rw [← hoffered.isExact_eq, q.isExact_congr huv, hother]
  obtain ⟨s', hs', hconst, hc'⟩ :=
    (hserved' c' (h.isomorphism.mem c c' hcc').2 u hu').resolve_left (by simp [hother'])
  obtain ⟨j, hj⟩ := List.mem_iff_getElem?.1 hs'
  obtain ⟨v', hv'⟩ := Option.ne_none_iff_exists'.1 hconst
  have hkj : k' ≤ j := by
    by_contra hlt
    rw [hshape'.relied j s' (Nat.lt_of_not_le hlt) hj c' hc' u hu'] at hother'
    exact absurd hother' (by simp)
  obtain ⟨u', hrequires, huv'⟩ := (hshape'.constants j s' hkj hj v' hv').2.2 c' hc'
  obtain rfl := h.ended'.unique x' (h.isomorphism.mem x x' hx).2 c' u u' hu' hrequires
  refine ⟨j, s', hkj, hj, ?_, hc'⟩
  rw [Setting.fill_of_constant? hv']
  exact .constant (Scalar.equal_trans (Scalar.equal_symm huv) huv')

theorem laneFix_eq (hx : κ.nodes x x') (hcc' : κ.nodes c c') :
    w'.laneFix c' x' = w.laneFix c x := by
  have hnode := h.isomorphism.same c c' hcc'
  have hsame := h.isomorphism.same x x' hx
  rw [Workspace.laneFix, Workspace.laneFix, Node.laneFixAxes, Node.laneFixAxes,
    Node.replicatedAxes, Node.replicatedAxes, hnode.alignedAxes_eq hsame, hsame.axes]

/-- Copies of lane 0 that a reader demanded are copies that its counterpart demanded, too. -/
theorem exists_demanded_position (hx : κ.nodes x x')
    (hshape : a.run.Shape w x (engine.Requires w (distinct roots) x) k q)
    (hshape' : a'.run.Shape w' x' (engine.Requires w' (distinct roots') x') k' q') {s : Setting}
    (hs : s ∈ (a.run.entry x).settings) {e : PositionExpr} (hfill : s.fill = .position e)
    (hc : c ∈ s.demandedBy) (hcc' : κ.nodes c c') :
    ∃ (j : Nat) (s' : Setting), k' ≤ j ∧ (a'.run.entry x').settings[j]? = some s' ∧
      κ.SameFill (.position e) s'.fill ∧ c' ∈ s'.demandedBy := by
  obtain ⟨hmem, -⟩ := h.isomorphism.mem x x' hx
  obtain ⟨hcmem, hcmem'⟩ := h.isomorphism.mem c c' hcc'
  have hnode := h.isomorphism.same c c' hcc'
  obtain ⟨hgraph, -⟩ := h.ended.lists.has x hmem
  obtain ⟨-, hconsumers, -⟩ :=
    h.ended.outcome.positions x hgraph s hs (by rw [Setting.constant?, hfill])
  have hinput := ((h.ended.mem_consumers hmem).1 (hconsumers c hc)).2
  have hpoint := hshape.isPointwise_of_position hs hfill hc
  obtain ⟨hviewed, hfix, rfl⟩ :=
    ((h.ended.outcome.settled c hcmem).fixed hpoint x hinput e).1 ⟨s, hs, hfill, hc⟩
  have hsame := h.laneFix_eq hx hcc'
  obtain ⟨s', hs', hfill', hc'⟩ :=
    ((h.ended'.outcome.settled c' hcmem').fixed (hnode.op.isPointwise_eq ▸ hpoint) x'
      (h.isomorphism.mem_inputs hnode hinput hx) _).2
      ⟨h.mem_viewedOperands hx hcc' hpoint hviewed, hsame ▸ hfix, rfl⟩
  obtain ⟨j, hj⟩ := List.mem_iff_getElem?.1 hs'
  have hkj : k' ≤ j := by
    -- what makes a tensor safe is a constant
    by_contra hlt
    cases hshape'.offers with
    | own => exact hlt (Nat.zero_le j)
    | filled hfirst hconst =>
      obtain rfl : j = 0 := by omega
      obtain rfl := Option.some.inj (hfirst.symm.trans hj)
      exact absurd (hconst.symm.trans hfill') (by simp)
  refine ⟨j, s', hkj, hj, ?_, hc'⟩
  rw [hfill', Workspace.laneFixExpr, Workspace.laneFixExpr, hsame]
  exact .position hx _

/-- **Whatever a reader demanded, its counterpart demanded, too**, unless it makes the tensor
safe. -/
theorem exists_demanded (hx : κ.nodes x x')
    (hshared : a.run.Shared w engine a.nodes (distinct roots) x k q)
    (hshared' : a'.run.Shared w' engine a'.nodes (distinct roots') x' k' q') {i : Nat} {s : Setting}
    (hi : k ≤ i) (hs : (a.run.entry x).settings[i]? = some s) (hc : c ∈ s.demandedBy)
    (hcc' : κ.nodes c c') :
    ∃ (j : Nat) (s' : Setting), k' ≤ j ∧ (a'.run.entry x').settings[j]? = some s' ∧
      κ.SameFill s.fill s'.fill ∧ c' ∈ s'.demandedBy := by
  cases hfill : s.fill with
  | constant v => exact h.exists_demanded_constant hx hshared.shape hshared' hi hs hfill hc hcc'
  | position e =>
    exact h.exists_demanded_position hx hshared.shape hshared'.shape (List.mem_of_getElem? hs)
      hfill hc hcc'

/-- Settings that write the same are demanded by the same readers. -/
theorem exists_mem_demandedBy (hx : κ.nodes x x')
    (hshared : a.run.Shared w engine a.nodes (distinct roots) x k q)
    (hshared' : a'.run.Shared w' engine a'.nodes (distinct roots') x' k' q') {i j : Nat}
    {s s' : Setting} (hi : k ≤ i) (hs : (a.run.entry x).settings[i]? = some s) (hj : k' ≤ j)
    (hs' : (a'.run.entry x').settings[j]? = some s') (hfill : κ.SameFill s.fill s'.fill) :
    ∀ c ∈ s.demandedBy, ∃ c' ∈ s'.demandedBy, κ.nodes c c' := by
  intro c hc
  obtain ⟨hmem, -⟩ := h.isomorphism.mem x x' hx
  obtain ⟨c', -, hcc'⟩ :=
    h.isomorphism.all.left c (h.ended.mem_of_mem_demandedBy hmem (List.mem_of_getElem? hs) hc)
  obtain ⟨j', s₁, hj', hs₁, hfill', hc'⟩ := h.exists_demanded hx hshared hshared' hi hs hc hcc'
  obtain rfl := (h.ended'.regular.distinct x').eq_of_equal hs' hs₁
    (hfill.equal h.isomorphism.unique hfill')
    (by rw [hshared'.shape.targeted j s' hj hs', hshared'.shape.targeted j' s₁ hj' hs₁])
  obtain rfl := Option.some.inj (hs'.symm.trans hs₁)
  exact ⟨c', hc', hcc'⟩

/-- A setting that somebody demanded has a counterpart. -/
theorem exists_sameSetting_of_le (hx : κ.nodes x x')
    (hshared : a.run.Shared w engine a.nodes (distinct roots) x k q)
    (hshared' : a'.run.Shared w' engine a'.nodes (distinct roots') x' k' q') {i : Nat} {s : Setting}
    (hi : k ≤ i) (hs : (a.run.entry x).settings[i]? = some s) :
    ∃ s' ∈ (a'.run.entry x').settings, κ.SameSetting s s' := by
  obtain ⟨hmem, -⟩ := h.isomorphism.mem x x' hx
  obtain ⟨hgraph, -⟩ := h.ended.lists.has x hmem
  have hsettings := List.mem_of_getElem? hs
  have hsome : s.demandedBy ≠ [] := by
    cases hv : s.constant? with
    | none => exact (h.ended.outcome.positions x hgraph s hsettings hv).1
    | some v => exact (hshared.shape.constants i s hi hs v hv).2.1
  obtain ⟨c, hc⟩ := List.exists_mem_of_ne_nil _ hsome
  obtain ⟨c', -, hcc'⟩ := h.isomorphism.all.left c (h.ended.mem_of_mem_demandedBy hmem hsettings hc)
  obtain ⟨j, s', hj, hs', hfill, -⟩ := h.exists_demanded hx hshared hshared' hi hs hc hcc'
  have hsettings' := List.mem_of_getElem? hs'
  refine ⟨s', hsettings', hfill, ?_⟩
  have hnil : s.targets = [] ↔ s'.targets = [] := by
    rw [← Setting.isTargeted_eq_iff, hshared.shape.targeted i s hi hs,
      hshared'.shape.targeted j s' hj hs', h.readers_eq hx]
  rcases h.ended.outcome.tidy x s hsettings with htargets | htargets
  · rw [htargets, hnil.1 htargets]
    exact .nil
  · rcases h.ended'.outcome.tidy x' s' hsettings' with htargets' | htargets'
    · rw [hnil.2 htargets', htargets']
      exact .nil
    · rw [htargets, htargets']
      exact ⟨h.exists_mem_demandedBy hx hshared hshared' hi hs hj hs' hfill,
        h.symm.exists_mem_demandedBy hx hshared' hshared hj hs' hi hs hfill.symm⟩

/-- An output without consumers that is filled to be stored has a counterpart of that kind. -/
theorem settings_eq_of_lone (hx : κ.nodes x x') (hoffers : a.run.Offers w x 0 q)
    (hroot : x ∈ distinct roots) (houtput : engine.outputPadding = true)
    (hpadded : (w.node x).hasPadding = true) (hother : q.isExact ⟨(w.node x).dtype, .zero⟩ = false)
    (hconsumers : (a.run.entry x).consumers = [])
    (hclosed' : a'.run.Closed w' engine a'.nodes (distinct roots') x' k' q') :
    (a'.run.entry x').settings =
      [Entry.newSetting none (.constant ⟨(w.node x).dtype, .zero⟩) false] := by
  obtain ⟨hmem, hmem'⟩ := h.isomorphism.mem x x' hx
  obtain ⟨-, hoffered⟩ := h.offers hx hoffers hclosed'.offers
  cases hclosed' with
  | lone _ _ _ _ _ _ _ hsettings => rw [hsettings, (h.isomorphism.same x x' hx).dtype]
  | shared hshape hserved =>
    exfalso
    have hrequires := h.requires hx hx (.inr ⟨rfl, hroot, houtput, hpadded, rfl⟩)
    rcases hserved x' hmem' _ hrequires with hexact | ⟨s, hs, -, hself⟩
    · rw [← hoffered.isExact_eq, hother] at hexact
      exact absurd hexact (by simp)
    · rcases h.ended'.demanders x' hmem' s hs x' hself with hconsumer | ⟨-, hreaders⟩
      · rw [(h.sameNodes_consumers hx).eq_nil_iff.1 hconsumers] at hconsumer
        exact absurd hconsumer (by simp)
      · obtain ⟨hgraph, hhas⟩ := h.ended.lists.has x hmem
        rw [← h.readers_eq hx, h.ended.outcome.readers x hgraph hhas, hconsumers,
          if_pos hroot] at hreaders
        exact absurd hreaders (by simp)

/-- The setting that makes a tensor safe has a counterpart. -/
theorem exists_sameSetting_of_lt (hx : κ.nodes x x') (hoffers : a.run.Offers w x k q)
    (hoffers' : a'.run.Offers w' x' k' q') {i : Nat} {s : Setting} (hi : i < k)
    (hs : (a.run.entry x).settings[i]? = some s) :
    ∃ s' ∈ (a'.run.entry x').settings, κ.SameSetting s s' := by
  obtain ⟨rfl, hsame⟩ := h.offers hx hoffers hoffers'
  cases hoffers with
  | own => exact absurd hi (Nat.not_lt_zero i)
  | filled hfirst hfill htargets =>
    obtain rfl : i = 0 := Nat.lt_one_iff.1 hi
    obtain rfl := Option.some.inj (hfirst.symm.trans hs)
    cases hoffers' with
    | @filled s' _ hfirst' hfill' htargets' =>
      refine ⟨s', List.mem_of_getElem? hfirst', ?_, ?_⟩
      · rw [hfill, hfill', Content.exact.inj hsame.content.of_exact]
        exact .constant (Scalar.equal_refl _)
      · rw [htargets, htargets']
        exact .nil

/-- **Every setting has a counterpart.** -/
theorem exists_sameSetting (hx : κ.nodes x x') {s : Setting} (hs : s ∈ (a.run.entry x).settings) :
    ∃ s' ∈ (a'.run.entry x').settings, κ.SameSetting s s' := by
  obtain ⟨hmem, hmem'⟩ := h.isomorphism.mem x x' hx
  obtain ⟨k, q, hclosed⟩ := h.ended.closed x hmem
  obtain ⟨k', q', hclosed'⟩ := h.ended'.closed x' hmem'
  have hlone : ∀ {v : Scalar} {l l' : List Setting}, l =
      [Entry.newSetting none (.constant v) false] →
      l' = [Entry.newSetting none (.constant v) false] →
      ∀ s ∈ l, ∃ s' ∈ l', κ.SameSetting s s' := by
    rintro v l l' rfl rfl s hs
    obtain rfl := List.mem_singleton.1 hs
    exact ⟨_, List.mem_singleton_self _, .constant (Scalar.equal_refl v), .nil⟩
  cases hclosed with
  | lone _ hoffers hroot houtput hpadded hother hconsumers hsettings =>
    exact hlone hsettings
      (h.settings_eq_of_lone hx hoffers hroot houtput hpadded hother hconsumers hclosed') s hs
  | shared hshape hserved =>
    cases hclosed' with
    | lone _ hoffers hroot houtput hpadded hother hconsumers hsettings =>
      exact hlone (h.symm.settings_eq_of_lone hx hoffers hroot houtput hpadded hother hconsumers
        (.shared hshape hserved)) hsettings s hs
    | shared hshape' hserved' =>
      obtain ⟨i, hi⟩ := List.mem_iff_getElem?.1 hs
      rcases Nat.lt_or_ge i k with hk | hk
      · exact h.exists_sameSetting_of_lt hx hshape.offers hshape'.offers hk hi
      · exact h.exists_sameSetting_of_le hx ⟨hshape, hserved⟩ ⟨hshape', hserved'⟩ hk hi

end Agrees

/-! ## Actions -/

theorem SameAction.symm {b b' : Action} (h : κ.SameAction b b') : κ.symm.SameAction b' b :=
  ⟨h.tensor, h.fill.symm, h.targets.symm⟩

namespace Agrees

variable (h : κ.Agrees engine w roots a w' roots' a')
include h

theorem exists_sameAction {b : Action} (hb : b ∈ a.actions) :
    ∃ b' ∈ a'.actions, κ.SameAction b b' := by
  have hmem := h.ended.regular.tensor_mem hb
  obtain ⟨x', hmem', hx⟩ := h.isomorphism.all.left b.tensor hmem
  obtain ⟨s, hs, hbs⟩ := (h.ended.emits hmem).mem_actions_iff.1 ⟨hb, rfl⟩
  obtain ⟨s', hs', hsame⟩ := h.exists_sameSetting hx hs
  obtain ⟨hb', -⟩ := (h.ended'.emits hmem').mem_actions_iff.2 ⟨s', hs', rfl⟩
  refine ⟨_, hb', hx, ?_, ?_⟩
  · rw [← hbs]
    exact hsame.fill
  · rw [← hbs]
    exact hsame.targets

/-- No two actions have the same counterpart. -/
theorem pairwise_sameAction :
    a.actions.Pairwise fun b₁ b₂ => ∀ b', κ.SameAction b₁ b' → ¬κ.SameAction b₂ b' := by
  refine h.ended.pairwise_actions.imp fun hdistinct b' h₁ h₂ => ?_
  refine hdistinct (h.isomorphism.unique.1 h₁.tensor h₂.tensor) ⟨?_, ?_⟩
  · exact h₁.fill.symm.equal h.isomorphism.symm.unique h₂.fill.symm
  · rw [h₁.targets.eq_nil_iff, h₂.targets.eq_nil_iff]

/-- **The actions are the same**, in another order. -/
theorem exists_perm_actions : ∃ l, l.Perm a'.actions ∧ List.Forall₂ κ.SameAction a.actions l := by
  refine exists_perm_forall₂ (fun b hb => h.exists_sameAction hb)
    (fun b' hb' => ?_) h.pairwise_sameAction ?_
  · obtain ⟨b, hb, hsame⟩ := h.symm.exists_sameAction hb'
    exact ⟨b, hb, hsame.symm⟩
  · exact h.symm.pairwise_sameAction.imp fun hne b h₁ h₂ => hne b h₁.symm h₂.symm

end Agrees

/-- **If one of the graphs can be analysed, so can the other**, and the two analyses agree. -/
theorem Isomorphism.exists_agrees {nodes nodes' : List NodeRef} (hw : w.WellFormed)
    (hw' : w'.WellFormed) (h : κ.Isomorphism engine w roots nodes w' roots' nodes')
    (hreach : w.reachable roots = .ok nodes) (hreach' : w'.reachable roots' = .ok nodes')
    (h' : engine.analyze w' roots' = .ok a') :
    ∃ a, engine.analyze w roots = .ok a ∧ κ.Agrees engine w roots a w' roots' a' := by
  obtain ⟨first', rest', -, hroots', -, hanalysed, -⟩ := Engine.analyze_eq_ok.1 h'
  obtain rfl := Except.ok.inj (hreach'.symm.trans hanalysed)
  have hne : roots ≠ [] := fun hnil => by simp [h.outputs.eq_nil_iff.1 hnil] at hroots'
  obtain ⟨a, ha, rfl, hown⟩ := h.embeds.exists_analyze hw hw' hne hreach h' h.outputs.left
  exact ⟨a, ha, h, Engine.ended_of_analyze hw ha, Engine.ended_of_analyze hw' h', hown⟩

end Correspondence
end LanePadding
