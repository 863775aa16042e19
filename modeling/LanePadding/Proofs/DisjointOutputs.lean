import LanePadding.Proofs.CommonNodes

/-!
# Outputs that have nothing in common

Suppose that no node is needed for outputs of both of two lists.  The nodes of either list read each
other only, so an analysis of all outputs is made of steps on nodes of the first list and steps on
nodes of the second one.  A step of one kind does what it does in the analysis of its own list, and
nodes of the other list are left alone.  This is `RunM.Splits`, which follows three analyses at a
time: the joint one succeeds just if both others do.

## What is here

* `RunM.Splits` — a computation that does what two others do, in some order.
* `Pairing.part` — some nodes of a workspace that is analysed as a whole.
* `Pairing.exists_split` — the analysis of all outputs does what the analyses of the two lists do.
* `Analysis.Restricts` — an analysis is, on the nodes of some outputs, another one.
* `Engine.analyze_append_of_disjoint` — outputs that have nothing in common are analysed
  independently.
-/

set_option autoImplicit false

namespace LanePadding

/-! ## Lists -/

theorem distinct_append {α : Type} [DecidableEq α] {xs ys : List α} (h : ∀ y ∈ ys, y ∉ xs) :
    distinct (xs ++ ys) = distinct xs ++ distinct ys := by
  induction ys using List.reverseRecOn with
  | nil => simp [distinct]
  | append_singleton ys y ih =>
    have hy : y ∉ distinct xs := fun hmem => h y (by simp) (mem_distinct.1 hmem)
    rw [← List.append_assoc, distinct_append_singleton, distinct_append_singleton,
      ih fun z hz => h z (List.mem_append_left _ hz)]
    simp only [insertLast, List.mem_append, hy, false_or]
    split
    · rfl
    · rw [List.append_assoc]

/-! ## Three analyses at a time -/

namespace RunM

/-- From states related by `R`, the first computation and both others succeed, with states related
by `R`, or the first one fails and one of the others does. -/
def Splits (R : Run → Run → Run → Prop) (m m₁ m₂ : RunM Unit) : Prop :=
  ∀ r r₁ r₂, R r r₁ r₂ →
    (∃ s s₁ s₂, m.Yields r () s ∧ m₁.Yields r₁ () s₁ ∧ m₂.Yields r₂ () s₂ ∧ R s s₁ s₂) ∨
      m.Fails r ∧ (m₁.Fails r₁ ∨ m₂.Fails r₂)

variable {R : Run → Run → Run → Prop}

theorem splits_pure : Splits R (pure ()) (pure ()) (pure ()) :=
  fun r r₁ r₂ hr => .inl ⟨r, r₁, r₂, yields_pure.2 ⟨rfl, rfl⟩, yields_pure.2 ⟨rfl, rfl⟩,
    yields_pure.2 ⟨rfl, rfl⟩, hr⟩

theorem Splits.bind {m m₁ m₂ k k₁ k₂ : RunM Unit} (h : Splits R m m₁ m₂) (hk : Splits R k k₁ k₂) :
    Splits R (m >>= fun _ => k) (m₁ >>= fun _ => k₁) (m₂ >>= fun _ => k₂) := by
  intro r r₁ r₂ hr
  rcases h r r₁ r₂ hr with ⟨s, s₁, s₂, hs, hs₁, hs₂, hR⟩ | ⟨hfail, hother⟩
  · rcases hk s s₁ s₂ hR with ⟨t, t₁, t₂, ht, ht₁, ht₂, hR'⟩ | ⟨hfail, hother⟩
    · exact .inl ⟨t, t₁, t₂, yields_bind.2 ⟨_, _, hs, ht⟩, yields_bind.2 ⟨_, _, hs₁, ht₁⟩,
        yields_bind.2 ⟨_, _, hs₂, ht₂⟩, hR'⟩
    · exact .inr ⟨hs.fails_bind hfail, hother.imp hs₁.fails_bind hs₂.fails_bind⟩
  · exact .inr ⟨hfail.bind _, hother.imp (Fails.bind · _) (Fails.bind · _)⟩

/-- The elements of a list are dealt with one after the other, each of them by one of the two other
computations. -/
theorem splits_forM {α : Type} {f : α → RunM Unit} {p₁ p₂ : α → Bool} {l : List α}
    (h : ∀ a ∈ l, p₁ a = true ∧ p₂ a = false ∧ Splits R (f a) (f a) (pure ()) ∨
      p₁ a = false ∧ p₂ a = true ∧ Splits R (f a) (pure ()) (f a)) :
    Splits R (l.forM f) ((l.filter p₁).forM f) ((l.filter p₂).forM f) := by
  induction l with
  | nil => exact splits_pure
  | cons a l ih =>
    have hrest := ih fun b hb => h b (List.mem_cons_of_mem _ hb)
    rcases h a List.mem_cons_self with ⟨h₁, h₂, hf⟩ | ⟨h₁, h₂, hf⟩
    · rw [List.filter_cons_of_pos h₁, List.filter_cons_of_neg (by simp [h₂])]
      exact hf.bind hrest
    · rw [List.filter_cons_of_neg (by simp [h₁]), List.filter_cons_of_pos h₂]
      exact hf.bind hrest

end RunM

/-! ## Parts of a workspace -/

namespace Pairing

/-- A part of a workspace that is analysed by itself. -/
def part {w : Workspace} {g : Nat} {nodes : List NodeRef} (h : w.IsPart g nodes) : Pairing where
  left := w
  right := w
  graph := g
  nodes := nodes
  rename := id
  counted _ := True
  injective := Function.injective_id
  fixed _ _ := rfl
  graph_eq := h.graph_eq
  node_eq _ _ := rfl
  inputs n hn x hx := ⟨h.inputs n hn x hx, trivial⟩

@[simp] theorem nodes_part {w : Workspace} {g : Nat} {nodes : List NodeRef} (h : w.IsPart g nodes) :
    (part h).nodes = nodes := rfl

@[simp] theorem rename_part {w : Workspace} {g : Nat} {nodes : List NodeRef}
    (h : w.IsPart g nodes) :
    (part h).rename = id := rfl

variable {P₁ P₂ : Pairing}

/-- The first state is followed by the second one on some nodes and by the third one on others. -/
def FollowsBoth (P₁ P₂ : Pairing) (r r₁ r₂ : Run) : Prop :=
  P₁.Follows (r, r₁) r r₁ ∧ P₂.Follows (r, r₂) r r₂

/-- A step on one part leaves the other part alone. -/
theorem splits_left (hdisjoint : ∀ x ∈ P₁.nodes, ∀ y ∈ P₂.nodes, x.index ≠ y.index) {m : RunM Unit}
    (h : ∀ base, RunM.Lockstep (P₁.Follows base) m m fun _ _ => True) :
    RunM.Splits (FollowsBoth P₁ P₂) m m (pure ()) := by
  rintro r r₁ r₂ ⟨hr₁, hr₂⟩
  rcases h _ r r₁ hr₁ with ⟨_, s, _, s₁, hs, hs₁, -, hfollows⟩ | ⟨hfail, hfail₁⟩
  · exact .inl ⟨s, s₁, r₂, hs, hs₁, RunM.yields_pure.2 ⟨rfl, rfl⟩, hfollows.rebase,
      hr₂.of_spares hfollows.left (.refl _ []) hdisjoint (by simp)⟩
  · exact .inr ⟨hfail, .inl hfail₁⟩

theorem splits_right (hdisjoint : ∀ x ∈ P₁.nodes, ∀ y ∈ P₂.nodes, x.index ≠ y.index) {m : RunM Unit}
    (h : ∀ base, RunM.Lockstep (P₂.Follows base) m m fun _ _ => True) :
    RunM.Splits (FollowsBoth P₁ P₂) m (pure ()) m := by
  rintro r r₁ r₂ ⟨hr₁, hr₂⟩
  rcases h _ r r₂ hr₂ with ⟨_, s, _, s₂, hs, hs₂, -, hfollows⟩ | ⟨hfail, hfail₂⟩
  · exact .inl ⟨s, r₁, s₂, hs, RunM.yields_pure.2 ⟨rfl, rfl⟩, hs₂,
      hr₁.of_spares hfollows.left (.refl _ []) (fun x hx y hy => (hdisjoint y hy x hx).symm)
        (by simp), hfollows.rebase⟩
  · exact .inr ⟨hfail, .inr hfail₂⟩

section

variable {w : Workspace} {g : Nat} {nodes nodes₁ nodes₂ : List NodeRef} (h₁ : w.IsPart g nodes₁)
  (h₂ : w.IsPart g nodes₂) (hdisjoint : ∀ x ∈ nodes₁, x ∉ nodes₂)

include hdisjoint

/-- What is done to each node in turn is done to either part. -/
theorem splits_parts {f : NodeRef → RunM Unit}
    (hf : ∀ (nodes : List NodeRef) (h : w.IsPart g nodes) (base : Run × Run), ∀ n ∈ nodes,
      RunM.Lockstep ((part h).Follows base) (f n) (f n) fun _ _ => True)
    {l : List NodeRef} (hl : ∀ n ∈ l, n ∈ nodes₁ ∨ n ∈ nodes₂) :
    RunM.Splits (FollowsBoth (part h₁) (part h₂)) (l.forM f) ((l.filter (· ∈ nodes₁)).forM f)
      ((l.filter (· ∈ nodes₂)).forM f) := by
  have hindex : ∀ x ∈ nodes₁, ∀ y ∈ nodes₂, x.index ≠ y.index := fun x hx y hy =>
    Run.index_ne (h₁.graph_eq x hx) (h₂.graph_eq y hy) fun heq => hdisjoint x hx (heq ▸ hy)
  refine RunM.splits_forM fun n hn => ?_
  rcases hl n hn with hn | hn
  · exact .inl ⟨by simp [hn], by simp [hdisjoint n hn], splits_left hindex fun base =>
      hf _ h₁ base n hn⟩
  · exact .inr ⟨by simpa using fun hmem => hdisjoint n hmem hn, by simp [hn],
      splits_right hindex fun base => hf _ h₂ base n hn⟩

/-- **An analysis of nodes that are in two parts** does what the analyses of the parts do. -/
theorem splits_process (engine : Engine) (hnodes : ∀ n ∈ nodes, n ∈ nodes₁ ∨ n ∈ nodes₂)
    {outputs : List NodeRef} (houtputs : ∀ x ∈ outputs, x ∈ nodes) :
    RunM.Splits (FollowsBoth (part h₁) (part h₂)) (engine.process w nodes outputs)
      (engine.process w (nodes.filter (· ∈ nodes₁)) (outputs.filter (· ∈ nodes₁)))
      (engine.process w (nodes.filter (· ∈ nodes₂)) (outputs.filter (· ∈ nodes₂))) := by
  refine (splits_parts h₁ h₂ hdisjoint
    (fun _ h _ n hn => (part h).lockstep_step engine hn) hnodes).bind ?_
  simp only [RunM.requireOutputs]
  split
  · exact splits_parts h₁ h₂ hdisjoint
      (fun _ h _ n hn => (part h).lockstep_requireOutput hn trivial)
      fun x hx => hnodes x (houtputs x hx)
  · exact RunM.splits_pure

end

/-- At the start, the nodes of a part have the readers that they have by themselves. -/
theorem follows_initial_part {w : Workspace} {g : Nat} {nodes nodes₁ : List NodeRef}
    (h₁ : w.IsPart g nodes₁) (hhas : ∀ x ∈ nodes₁, w.Has x)
    (hcommon : nodes.filter (· ∈ nodes₁) = nodes₁)
    (hreaders : ∀ c ∈ nodes, ∀ x ∈ nodes₁, x ∈ (w.node c).inputs → c ∈ nodes₁)
    (outputs : List NodeRef) :
    (part h₁).Follows (.initial w g nodes outputs,
      .initial w g nodes₁ (outputs.filter (· ∈ nodes₁))) (.initial w g nodes outputs)
        (.initial w g nodes₁ (outputs.filter (· ∈ nodes₁))) := by
  refine (part h₁).follows_initial
    ⟨hcommon, fun c hc hnot x hx hinput => absurd (hreaders c hc x hx hinput) hnot⟩
    ⟨List.filter_eq_self.2 fun c hc => decide_eq_true hc, fun c hc hnot => absurd hc hnot⟩
    (fun x hx => ⟨hhas x hx, hhas x hx⟩) fun x hx _ => ?_
  have hconsumers : nodes₁.filter (fun c => x ∈ (w.node c).inputs) = nodes.filter fun c =>
      x ∈ (w.node c).inputs := by
    nth_rewrite 1 [← hcommon]
    rw [List.filter_filter]
    refine List.filter_congr fun c hc => ?_
    by_cases hinput : x ∈ (w.node c).inputs
    · simp [hinput, hreaders c hc x hx hinput]
    · simp [hinput]
  have houtput : x ∈ outputs.filter (· ∈ nodes₁) ↔ x ∈ outputs := by
    rw [List.mem_filter, decide_eq_true_iff]
    exact and_iff_left hx
  change 1 < (nodes₁.filter fun c => x ∈ (w.node c).inputs).length + _ ↔
    1 < (nodes.filter fun c => x ∈ (w.node c).inputs).length + _
  rw [hconsumers, if_congr houtput rfl rfl]

end Pairing

/-! ## Independent outputs -/

namespace Workspace

variable {w : Workspace} {roots roots' nodes nodes' : List NodeRef} {x : NodeRef}

theorem reaches_append :
    w.Reaches (roots ++ roots') x ↔ w.Reaches roots x ∨ w.Reaches roots' x := by
  constructor
  · intro h
    induction h with
    | root hx => exact (List.mem_append.1 hx).imp .root .root
    | input _ hx ih => exact ih.imp (.input · hx) (.input · hx)
  · rintro (h | h)
    · exact h.mono fun y hy => List.mem_append_left _ hy
    · exact h.mono fun y hy => List.mem_append_right _ hy

/-- The nodes of some roots, in the list of the nodes of more roots. -/
theorem filter_reachable (hw : w.WellFormed) (hroots' : ∀ x ∈ roots', w.Has x)
    (hsubset : ∀ x ∈ roots, x ∈ roots') (h : w.reachable roots = .ok nodes)
    (h' : w.reachable roots' = .ok nodes') :
    nodes'.filter (· ∈ nodes) = nodes := by
  refine eq_of_sorted_index ((sorted_of_reachable hw h').filter _)
    (sorted_of_reachable hw h) fun x => ?_
  rw [List.mem_filter, decide_eq_true_iff, mem_reachable_iff hw hroots' h',
    mem_reachable_iff hw (fun x hx => hroots' x (hsubset x hx)) h]
  exact and_iff_right_of_imp (Reaches.mono hsubset)

theorem PartOf.filter_distinct {g : Nat} (h : w.PartOf g roots nodes) :
    (distinct roots).filter (· ∈ nodes) = distinct roots :=
  List.filter_eq_self.2 fun x hx => decide_eq_true ((h.mem_iff x).2 (.root (mem_distinct.1 hx)))

namespace PartOf

variable {g : Nat} (h : w.PartOf g roots nodes) (h' : w.PartOf g roots' nodes')
  (hdisjoint : ∀ x, w.Reaches roots x → ¬w.Reaches roots' x)

include h h' hdisjoint

theorem not_mem_of_disjoint (hx : x ∈ nodes) : x ∉ nodes' :=
  fun hx' => hdisjoint x ((h.mem_iff x).1 hx) ((h'.mem_iff x).1 hx')

theorem not_mem_roots_of_disjoint (hx : x ∈ nodes) : x ∉ roots' :=
  fun hx' => h.not_mem_of_disjoint h' hdisjoint hx ((h'.mem_iff x).2 (.root hx'))

/-- A reader of a node is in the same part. -/
theorem mem_of_reads {c : NodeRef} (hc : c ∈ nodes ∨ c ∈ nodes') (hx : x ∈ nodes)
    (hinput : x ∈ (w.node c).inputs) :
    c ∈ nodes :=
  hc.resolve_right fun hc => h.not_mem_of_disjoint h' hdisjoint hx (h'.inputs c hc x hinput)

theorem filter_distinct_of_disjoint : (distinct roots').filter (· ∈ nodes) = [] :=
  List.filter_eq_nil_iff.2 fun _ hx hmem =>
    h.not_mem_roots_of_disjoint h' hdisjoint (of_decide_eq_true hmem) (mem_distinct.1 hx)

end PartOf

end Workspace

/-- **From the start to the end**, the analysis of all outputs does what the analyses of the two
lists do. -/
theorem Pairing.exists_split {w : Workspace} {g : Nat}
    {roots₁ roots₂ nodes nodes₁ nodes₂ : List NodeRef} (hw : w.WellFormed)
    (h : w.PartOf g (roots₁ ++ roots₂) nodes) (h₁ : w.PartOf g roots₁ nodes₁)
    (h₂ : w.PartOf g roots₂ nodes₂) (hdisjoint : ∀ x, w.Reaches roots₁ x → ¬w.Reaches roots₂ x)
    (engine : Engine) :
    (∃ s s₁ s₂, (engine.process w nodes (distinct (roots₁ ++ roots₂))).Yields
          (.initial w g nodes (distinct (roots₁ ++ roots₂))) () s ∧
        (engine.process w nodes₁ (distinct roots₁)).Yields
          (.initial w g nodes₁ (distinct roots₁)) () s₁ ∧
        (engine.process w nodes₂ (distinct roots₂)).Yields
          (.initial w g nodes₂ (distinct roots₂)) () s₂ ∧
        FollowsBoth (.part h₁.toIsPart) (.part h₂.toIsPart) s s₁ s₂) ∨
      (engine.process w nodes (distinct (roots₁ ++ roots₂))).Fails
          (.initial w g nodes (distinct (roots₁ ++ roots₂))) ∧
        ((engine.process w nodes₁ (distinct roots₁)).Fails (.initial w g nodes₁ (distinct roots₁)) ∨
          (engine.process w nodes₂ (distinct roots₂)).Fails
            (.initial w g nodes₂ (distinct roots₂))) := by
  have hdisjoint' : ∀ x, w.Reaches roots₂ x → ¬w.Reaches roots₁ x :=
    fun x hx hx' => hdisjoint x hx' hx
  have heither : ∀ x ∈ nodes, x ∈ nodes₁ ∨ x ∈ nodes₂ := by
    intro x hx
    rw [h₁.mem_iff, h₂.mem_iff]
    exact Workspace.reaches_append.1 ((h.mem_iff x).1 hx)
  have hroots : ∀ x ∈ roots₁ ++ roots₂, x ∈ nodes := fun x hx => (h.mem_iff x).2 (.root hx)
  have hnodes₁ : nodes.filter (· ∈ nodes₁) = nodes₁ :=
    Workspace.filter_reachable hw (fun x hx => h.has x (hroots x hx))
    (fun x hx => List.mem_append_left _ hx) h₁.reachable h.reachable
  have hnodes₂ : nodes.filter (· ∈ nodes₂) = nodes₂ :=
    Workspace.filter_reachable hw (fun x hx => h.has x (hroots x hx))
    (fun x hx => List.mem_append_right _ hx) h₂.reachable h.reachable
  have hdistinct := distinct_append fun x hx hx' =>
    h₁.not_mem_roots_of_disjoint h₂ hdisjoint ((h₁.mem_iff x).2 (.root hx')) hx
  have houtputs₁ : (distinct (roots₁ ++ roots₂)).filter (· ∈ nodes₁) = distinct roots₁ := by
    rw [hdistinct, List.filter_append, h₁.filter_distinct,
      h₁.filter_distinct_of_disjoint h₂ hdisjoint, List.append_nil]
  have houtputs₂ : (distinct (roots₁ ++ roots₂)).filter (· ∈ nodes₂) = distinct roots₂ := by
    rw [hdistinct, List.filter_append, h₂.filter_distinct,
      h₂.filter_distinct_of_disjoint h₁ hdisjoint', List.nil_append]
  have hstart : FollowsBoth (.part h₁.toIsPart) (.part h₂.toIsPart) _ _ _ :=
    ⟨follows_initial_part h₁.toIsPart h₁.has hnodes₁
        (fun c hc x hx => h₁.mem_of_reads h₂ hdisjoint (heither c hc) hx)
        (distinct (roots₁ ++ roots₂)),
      follows_initial_part h₂.toIsPart h₂.has hnodes₂
        (fun c hc x hx => h₂.mem_of_reads h₁ hdisjoint' (heither c hc).symm hx)
        (distinct (roots₁ ++ roots₂))⟩
  have hsplits := splits_process h₁.toIsPart h₂.toIsPart
    (fun x hx => h₁.not_mem_of_disjoint h₂ hdisjoint hx) engine
    heither (fun x hx => hroots x (mem_distinct.1 hx)) _ _ _ hstart
  rwa [hnodes₁, hnodes₂, houtputs₁, houtputs₂] at hsplits

open Classical in
/-- On the nodes that the roots lead to, the analysis found what the other one found. -/
structure Analysis.Restricts (a : Analysis) (w : Workspace) (roots : List NodeRef) (b : Analysis) :
    Prop where
  padding : ∀ x, w.Reaches roots x → a.padding? x = b.padding? x
  settings : ∀ x, w.Reaches roots x → a.settings x = b.settings x
  actions : a.actions.filter (fun c => w.Reaches roots c.tensor) = b.actions

/-- Two vectors that are not brought together.  The logarithm and the sum of the first one are
taken, and so are the exponential of the second one and the sum of that. -/
def Workspace.apart : Workspace :=
  (Workspace.empty.addGraph "apart").calls
    [.placeholder 0 "x" .float32 [⟨16, 15⟩], .placeholder 0 "y" .float32 [⟨16, 15⟩],
      .unary (.unary .log) ⟨0, 0⟩,
      .unary (.unary .exp) ⟨0, 1⟩, .reduce (.reduce .sum) ⟨0, 3⟩ false [0],
      .reduce (.reduce .sum) ⟨0, 0⟩ false [0]]

theorem Workspace.built_apart : apart.Built :=
  (Built.addGraph "apart" .empty).calls (by decide)

namespace Engine

variable {engine : Engine} {w : Workspace} {g : Nat} {roots roots₁ roots₂ : List NodeRef}

theorem restricts_of_follows {a b : Analysis} (hw : w.WellFormed)
    (hb : engine.analyze w roots = .ok b) (hpart : w.IsPart g b.nodes)
    (hmem : ∀ x, x ∈ b.nodes ↔ w.Reaches roots x) (hgraph : a.graph = g) (hgraph' : b.graph = g)
    {base : Run × Run} (h : (Pairing.part hpart).Follows base a.run b.run) :
    a.Restricts w roots b := by
  constructor
  case padding =>
    intro x hx
    have hpadding := (h.mirrors x ((hmem x).2 hx)).padding
    rw [Analysis.padding?, Analysis.padding?, hgraph, hgraph', hpadding]
    simp
  case settings =>
    intro x hx
    have hsettings := (h.mirrors x ((hmem x).2 hx)).settings
    rw [Analysis.settings, Analysis.settings, hgraph, hgraph', hsettings]
    simp
  case actions =>
    have hall : ∀ c ∈ b.run.actions, c.tensor ∈ b.nodes :=
      fun c => (ended_of_analyze hw hb).regular.tensor_mem
    have hactions : b.run.actions.filter (·.tensor ∈ b.nodes) =
        (a.run.actions.filter (·.tensor ∈ b.nodes)).map (Action.retarget id) := h.actions_eq
    rw [List.filter_eq_self.2 fun c hc => decide_eq_true (hall c hc), Action.retarget_id,
      List.map_id] at hactions
    rw [Analysis.actions, Analysis.actions, hactions]
    exact List.filter_congr fun c _ => decide_eq_decide.2 (hmem c.tensor).symm

/-- **Outputs that have nothing in common are analysed independently.**  The analysis of all of them
succeeds just if the analyses of both lists do, and then it is made of these two. -/
theorem analyze_append_of_disjoint (hw : w.Built)
    (hroots : ∀ x ∈ roots₁ ++ roots₂, x.graph = g ∧ w.Has x) (hne₁ : roots₁ ≠ [])
    (hne₂ : roots₂ ≠ []) (hdisjoint : ∀ x, w.Reaches roots₁ x → ¬w.Reaches roots₂ x) :
    ((∃ a, engine.analyze w (roots₁ ++ roots₂) = .ok a) ↔
      (∃ a₁, engine.analyze w roots₁ = .ok a₁) ∧ ∃ a₂, engine.analyze w roots₂ = .ok a₂) ∧
    ∀ a a₁ a₂, engine.analyze w (roots₁ ++ roots₂) = .ok a → engine.analyze w roots₁ = .ok a₁ →
      engine.analyze w roots₂ = .ok a₂ → a.Restricts w roots₁ a₁ ∧ a.Restricts w roots₂ a₂ := by
  have hwf := hw.wellFormed
  obtain ⟨nodes, h⟩ := Workspace.exists_partOf hwf hroots
  obtain ⟨nodes₁, h₁⟩ :=
    Workspace.exists_partOf hwf fun x hx => hroots x (List.mem_append_left _ hx)
  obtain ⟨nodes₂, h₂⟩ :=
    Workspace.exists_partOf hwf fun x hx => hroots x (List.mem_append_right _ hx)
  have hne : roots₁ ++ roots₂ ≠ [] := by simp [hne₁]
  rcases Pairing.exists_split hwf h h₁ h₂ hdisjoint engine with
    ⟨s, s₁, s₂, hs, hs₁, hs₂, hfollows₁, hfollows₂⟩ | ⟨hfail, hother⟩
  · refine ⟨iff_of_true ⟨⟨g, nodes, s⟩, (h.analyze_iff hne).2 ⟨rfl, rfl, hs⟩⟩
      ⟨⟨⟨g, nodes₁, s₁⟩, (h₁.analyze_iff hne₁).2 ⟨rfl, rfl, hs₁⟩⟩,
        ⟨g, nodes₂, s₂⟩, (h₂.analyze_iff hne₂).2 ⟨rfl, rfl, hs₂⟩⟩, fun a a₁ a₂ ha ha₁ ha₂ => ?_⟩
    obtain ⟨hgraph, -, hrun⟩ := (h.analyze_iff hne).1 ha
    obtain ⟨hgraph₁, rfl, hrun₁⟩ := (h₁.analyze_iff hne₁).1 ha₁
    obtain ⟨hgraph₂, rfl, hrun₂⟩ := (h₂.analyze_iff hne₂).1 ha₂
    rw [← (hs.unique hrun).2] at hfollows₁ hfollows₂
    rw [← (hs₁.unique hrun₁).2] at hfollows₁
    rw [← (hs₂.unique hrun₂).2] at hfollows₂
    exact ⟨restricts_of_follows hwf ha₁ h₁.toIsPart h₁.mem_iff hgraph hgraph₁ hfollows₁,
      restricts_of_follows hwf ha₂ h₂.toIsPart h₂.mem_iff hgraph hgraph₂ hfollows₂⟩
  · have hnone : ∀ a, engine.analyze w (roots₁ ++ roots₂) ≠ .ok a := fun a ha =>
      hfail () a.run ((h.analyze_iff hne).1 ha).2.2
    refine ⟨iff_of_false (not_exists.2 hnone) ?_, fun a _ _ ha => absurd ha (hnone a)⟩
    rintro ⟨⟨a₁, ha₁⟩, a₂, ha₂⟩
    rcases hother with hfail₁ | hfail₂
    · exact hfail₁ () a₁.run ((h₁.analyze_iff hne₁).1 ha₁).2.2
    · exact hfail₂ () a₂.run ((h₂.analyze_iff hne₂).1 ha₂).2.2

/-- The logarithm and the sum of one vector, and the exponential of another one with its sum.  The
actions on the two vectors alternate in the joint analysis. -/
theorem analyze_append_apart :
    (∀ x, Workspace.apart.Reaches [⟨0, 2⟩, ⟨0, 5⟩] x →
      ¬Workspace.apart.Reaches [⟨0, 4⟩, ⟨0, 3⟩] x) ∧
      ∃ a a₁ a₂, default.analyze .apart ([⟨0, 2⟩, ⟨0, 5⟩] ++ [⟨0, 4⟩, ⟨0, 3⟩]) = .ok a ∧
        default.analyze .apart [⟨0, 2⟩, ⟨0, 5⟩] = .ok a₁ ∧
        default.analyze .apart [⟨0, 4⟩, ⟨0, 3⟩] = .ok a₂ ∧
        a.actions = [⟨⟨0, 0⟩, .constant ⟨.float32, .one⟩, []⟩,
          ⟨⟨0, 3⟩, .constant ⟨.float32, .zero⟩, [⟨0, 4⟩, ⟨0, 3⟩]⟩,
          ⟨⟨0, 0⟩, .constant ⟨.float32, .zero⟩, [⟨0, 5⟩]⟩] ∧
        a.Restricts .apart [⟨0, 2⟩, ⟨0, 5⟩] a₁ ∧ a.Restricts .apart [⟨0, 4⟩, ⟨0, 3⟩] a₂ := by
  have hreach₁ : Workspace.apart.reachable [⟨0, 2⟩, ⟨0, 5⟩] = .ok [⟨0, 0⟩, ⟨0, 2⟩, ⟨0, 5⟩] :=
    Workspace.built_apart.reachable_eq 0 (by decide +kernel)
  have hreach₂ : Workspace.apart.reachable [⟨0, 4⟩, ⟨0, 3⟩] = .ok [⟨0, 1⟩, ⟨0, 3⟩, ⟨0, 4⟩] :=
    Workspace.built_apart.reachable_eq 0 (by decide +kernel)
  have hroots : ∀ x ∈ [⟨0, 2⟩, ⟨0, 5⟩] ++ [⟨0, 4⟩, (⟨0, 3⟩ : NodeRef)], x.graph = 0 ∧
      Workspace.apart.Has x := by
    decide
  have hwf := Workspace.built_apart.wellFormed
  have hdisjoint : ∀ x, Workspace.apart.Reaches [⟨0, 2⟩, ⟨0, 5⟩] x →
      ¬Workspace.apart.Reaches [⟨0, 4⟩, ⟨0, 3⟩] x := by
    intro x
    rw [← Workspace.mem_reachable_iff hwf (by decide) hreach₁,
      ← Workspace.mem_reachable_iff hwf (by decide) hreach₂]
    revert x
    decide
  obtain ⟨a, ha, hactions⟩ :
      ∃ a, default.analyze .apart ([⟨0, 2⟩, ⟨0, 5⟩] ++ [⟨0, 4⟩, ⟨0, 3⟩]) = .ok a ∧
      a.actions = [⟨⟨0, 0⟩, .constant ⟨.float32, .one⟩, []⟩,
        ⟨⟨0, 3⟩, .constant ⟨.float32, .zero⟩, [⟨0, 4⟩, ⟨0, 3⟩]⟩,
        ⟨⟨0, 0⟩, .constant ⟨.float32, .zero⟩, [⟨0, 5⟩]⟩] :=
    Workspace.built_apart.exists_analyze 0 [⟨0, 0⟩, ⟨0, 1⟩, ⟨0, 2⟩, ⟨0, 3⟩, ⟨0, 4⟩, ⟨0, 5⟩]
      (by decide +kernel) (by decide +kernel)
  obtain ⟨hiff, hparts⟩ := analyze_append_of_disjoint Workspace.built_apart hroots (by simp)
    (by simp) hdisjoint
  obtain ⟨⟨a₁, ha₁⟩, a₂, ha₂⟩ := hiff.1 ⟨a, ha⟩
  exact ⟨hdisjoint, a, a₁, a₂, ha, ha₁, ha₂, hactions, hparts a a₁ a₂ ha ha₁ ha₂⟩

end Engine
end LanePadding
