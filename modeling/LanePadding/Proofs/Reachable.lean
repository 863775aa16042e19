import Mathlib.Logic.Relation
import LanePadding.Graph.Reach
import LanePadding.Proofs.Built

/-!
# The nodes that an analysis visits

`Workspace.reachable` is a search in depth followed by sorting.  What matters to an analysis is
collected in `Workspace.Lists`: the nodes come in the order of the graph, without repetition, every
node after its inputs, and the roots are among them.

The search itself is described by three facts about `preorder`: it finds what is pending
(`mem_preorder_of_pending`), with a node all that is next to it (`mem_preorder_of_next`), and
nothing else (`forall_mem_preorder`).  So the nodes are those that roots lead to
(`Workspace.Reaches`), that is, those that some root reads through any number of inputs
(`reaches_iff_reflTransGen`).

In a graph made with builders no search meets a cycle.  `Workspace.reachable_exact` says all of this
at once: when listing fails, and what is listed otherwise.
-/

set_option autoImplicit false

namespace LanePadding

section Preorder

variable {α : Type} [DecidableEq α] {next : α → List α}

theorem mem_of_mem_preorder {unseen pending : List α} {y : α}
    (h : y ∈ preorder next unseen pending) :
    y ∈ unseen := by
  induction unseen, pending using preorder.induct next with
  | case1 => simp [preorder] at h
  | case2 unseen x rest hx ih =>
    rw [preorder, if_pos hx] at h
    rcases List.mem_cons.1 h with rfl | h
    · exact hx
    · exact List.mem_of_mem_erase (ih h)
  | case3 unseen x rest hx ih =>
    rw [preorder, if_neg hx] at h
    exact ih h

/-- The search finds all that is pending. -/
theorem mem_preorder_of_pending {unseen pending : List α} {y : α} (hy : y ∈ pending)
    (hunseen : y ∈ unseen) : y ∈ preorder next unseen pending := by
  induction unseen, pending using preorder.induct next with
  | case1 => simp at hy
  | case2 unseen x rest hx ih =>
    rw [preorder, if_pos hx]
    by_cases hyx : y = x
    · exact hyx ▸ List.mem_cons_self
    · have hrest : y ∈ next x ++ rest := by
        rcases List.mem_cons.1 hy with rfl | hy
        · exact absurd rfl hyx
        · exact List.mem_append_right _ hy
      exact List.mem_cons_of_mem _ (ih hrest ((List.mem_erase_of_ne hyx).2 hunseen))
  | case3 unseen x rest hx ih =>
    rw [preorder, if_neg hx]
    rcases List.mem_cons.1 hy with rfl | hy
    · exact absurd hunseen hx
    · exact ih hy hunseen

/-- The search finds all that is next to what it finds. -/
theorem mem_preorder_of_next {unseen pending : List α} {x y : α}
    (hx : x ∈ preorder next unseen pending) (hy : y ∈ next x) (hunseen : y ∈ unseen) :
    y ∈ preorder next unseen pending := by
  induction unseen, pending using preorder.induct next with
  | case1 => simp [preorder] at hx
  | case2 unseen z rest hz ih =>
    rw [preorder, if_pos hz] at hx ⊢
    by_cases hyz : y = z
    · exact hyz ▸ List.mem_cons_self
    · have hy' : y ∈ unseen.erase z := (List.mem_erase_of_ne hyz).2 hunseen
      refine List.mem_cons_of_mem _ ?_
      rcases List.mem_cons.1 hx with rfl | hx
      · exact mem_preorder_of_pending (List.mem_append_left _ hy) hy'
      · exact ih hx hy'
  | case3 unseen z rest hz ih =>
    rw [preorder, if_neg hz] at hx ⊢
    exact ih hx hunseen

/-- The search finds nothing else: what holds of the pending ones and passes on to the next ones
holds of all. -/
theorem forall_mem_preorder {P : α → Prop} (hnext : ∀ x, P x → ∀ y ∈ next x, P y)
    {unseen pending : List α} (hpending : ∀ x ∈ pending, P x) :
    ∀ y ∈ preorder next unseen pending, P y := by
  induction unseen, pending using preorder.induct next with
  | case1 => simp [preorder]
  | case2 unseen x rest hx ih =>
    have hP : P x := hpending x List.mem_cons_self
    rw [preorder, if_pos hx]
    intro y hy
    rcases List.mem_cons.1 hy with rfl | hy
    · exact hP
    · refine ih (fun z hz => ?_) y hy
      rcases List.mem_append.1 hz with hz | hz
      · exact hnext x hP z hz
      · exact hpending z (List.mem_cons_of_mem x hz)
  | case3 unseen x rest hx ih =>
    rw [preorder, if_neg hx]
    exact ih fun z hz => hpending z (List.mem_cons_of_mem x hz)

/-- The search follows nothing twice, however often it is pending. -/
theorem nodup_preorder {unseen pending : List α} (h : unseen.Nodup) :
    (preorder next unseen pending).Nodup := by
  induction unseen, pending using preorder.induct next with
  | case1 => simp [preorder]
  | case2 unseen x rest hx ih =>
    rw [preorder, if_pos hx]
    -- `x` is no longer unseen when the rest is searched
    exact List.nodup_cons.2 ⟨fun hmem => h.not_mem_erase (mem_of_mem_preorder hmem), ih (h.erase x)⟩
  | case3 unseen x rest hx ih =>
    rw [preorder, if_neg hx]
    exact ih h

end Preorder

theorem nodup_of_sorted_index {l : List NodeRef} (h : l.Pairwise fun a b => a.index < b.index) :
    l.Nodup := by
  refine List.Pairwise.imp ?_ h
  rintro a b hlt rfl
  exact Nat.lt_irrefl _ hlt

namespace Workspace

/-- The nodes are those that the roots depend on, in the order of the graph `g`. -/
structure Lists (w : Workspace) (g : Nat) (roots nodes : List NodeRef) : Prop where
  sorted : nodes.Pairwise fun a b => a.index < b.index
  has : ∀ n ∈ nodes, n.graph = g ∧ w.Has n
  inputs : ∀ n ∈ nodes, ∀ x ∈ (w.node n).inputs, x ∈ nodes
  roots : ∀ r ∈ roots, r.graph = g ∧ (w.Has r → r ∈ nodes)

theorem mem_allNodes {w : Workspace} {g : Nat} {r : NodeRef} :
    r ∈ w.allNodes g ↔ r.graph = g ∧ w.Has r := by
  simp only [allNodes, List.mem_map, List.mem_range, Has]
  constructor
  · rintro ⟨i, hi, rfl⟩
    exact ⟨rfl, hi⟩
  · rintro ⟨rfl, hr⟩
    exact ⟨r.index, hr, rfl⟩

theorem sorted_allNodes (w : Workspace) (g : Nat) :
    (w.allNodes g).Pairwise fun a b => a.index < b.index := by
  rw [allNodes, List.pairwise_map]
  exact List.pairwise_lt_range

theorem nodup_discovered (w : Workspace) (g : Nat) (roots : List NodeRef) :
    (w.discovered g roots).Nodup :=
  nodup_preorder (nodup_of_sorted_index (w.sorted_allNodes g))

/-- The nodes that roots of one graph depend on can be listed. -/
theorem exists_reachable {w : Workspace} (hw : w.WellFormed) {g : Nat} {roots : List NodeRef}
    (hroots : ∀ x ∈ roots, x.graph = g) : ∃ nodes, w.reachable roots = .ok nodes := by
  cases roots with
  | nil => exact ⟨[], rfl⟩
  | cons first rest =>
    have hforeign : (first :: rest).find? (fun r => r.graph ≠ first.graph) = none := by
      refine List.find?_eq_none.2 fun x hx => ?_
      simp [hroots x hx, hroots first (by simp)]
    -- a node of the graph reads only earlier ones
    have hlate : (w.discovered first.graph (first :: rest)).findSome?
        (fun r => (w.lateInput? r).map fun x => (r, x)) = none := by
      refine List.findSome?_eq_none_iff.2 fun n hn => ?_
      obtain ⟨-, hhas⟩ := mem_allNodes.1 (mem_of_mem_preorder hn)
      rw [Option.map_eq_none_iff, lateInput?, List.find?_eq_none]
      intro x hx
      simpa using ((hw n hhas).earlier x hx).2
    exact ⟨_, by simp only [reachable, hforeign, hlate]; rfl⟩

/-- A root of another graph is reported before anything is searched. -/
theorem exists_foreignRoot (w : Workspace) {first : NodeRef} {rest : List NodeRef}
    (h : ∃ r ∈ first :: rest, r.graph ≠ first.graph) :
    ∃ r ∈ first :: rest, r.graph ≠ first.graph ∧
      w.reachable (first :: rest) = .error (.foreignRoot r first) := by
  have hsome : ((first :: rest).find? fun r => r.graph ≠ first.graph).isSome := by
    simpa only [List.find?_isSome, decide_eq_true_eq] using h
  obtain ⟨r, hr⟩ := Option.isSome_iff_exists.1 hsome
  refine ⟨r, List.mem_of_find?_eq_some hr, by simpa using List.find?_some hr, ?_⟩
  simp only [reachable, hr]

/-- What is listed was found, and all roots are in one graph. -/
theorem reachable_eq_ok {w : Workspace} {first : NodeRef} {rest nodes : List NodeRef}
    (h : w.reachable (first :: rest) = .ok nodes) :
    nodes = (w.allNodes first.graph).filter (· ∈ w.discovered first.graph (first :: rest)) ∧
      ∀ r ∈ first :: rest, r.graph = first.graph := by
  unfold reachable at h
  split at h
  · rename_i hnil
    simp at hnil
  · rename_i first' rest' hcons
    obtain ⟨rfl, rfl⟩ := List.cons.inj hcons
    split at h
    · exact absurd h (by simp)
    · rename_i hforeign
      dsimp only at h
      split at h
      · exact absurd h (by simp)
      · obtain rfl := Except.ok.inj h
        refine ⟨rfl, fun r hr => ?_⟩
        have := List.find?_eq_none.1 hforeign r hr
        simpa using this

theorem lists_of_reachable {w : Workspace} (hw : w.WellFormed) {first : NodeRef}
    {rest nodes : List NodeRef} (h : w.reachable (first :: rest) = .ok nodes) :
    w.Lists first.graph (first :: rest) nodes := by
  obtain ⟨rfl, hforeign⟩ := reachable_eq_ok h
  have hmem : ∀ n, n ∈ (w.allNodes first.graph).filter
      (· ∈ w.discovered first.graph (first :: rest)) ↔
        (n.graph = first.graph ∧ w.Has n) ∧ n ∈ w.discovered first.graph (first :: rest) := by
    intro n
    rw [List.mem_filter, mem_allNodes]
    simp
  refine ⟨?_, fun n hn => ((hmem n).1 hn).1, fun n hn x hx => ?_, fun r hr => ?_⟩
  · exact (w.sorted_allNodes first.graph).filter _
  · obtain ⟨⟨hgraph, hhas⟩, hfound⟩ := (hmem n).1 hn
    obtain ⟨hxgraph, hxhas⟩ := hw.has_input hhas hx
    have hx' : x.graph = first.graph ∧ w.Has x := ⟨hxgraph.trans hgraph, hxhas⟩
    exact (hmem x).2 ⟨hx', mem_preorder_of_next hfound (List.mem_reverse.2 hx) (mem_allNodes.2 hx')⟩
  · exact ⟨hforeign r hr, fun hhas => (hmem r).2 ⟨⟨hforeign r hr, hhas⟩,
      mem_preorder_of_pending (List.mem_reverse.2 hr) (mem_allNodes.2 ⟨hforeign r hr, hhas⟩)⟩⟩

/-- The node is a root, or some node reads it that a root leads to. -/
inductive Reaches (w : Workspace) (roots : List NodeRef) : NodeRef → Prop
  | root {x : NodeRef} (hx : x ∈ roots) : Reaches w roots x
  | input {c x : NodeRef} (hc : Reaches w roots c) (hx : x ∈ (w.node c).inputs) : Reaches w roots x

variable {w : Workspace} {g : Nat} {roots nodes : List NodeRef}

/-- What comes before a listed node in the graph comes before it in the list. -/
theorem Lists.mem_before (h : w.Lists g roots nodes) {before after : List NodeRef} {n x : NodeRef}
    (hsplit : nodes = before ++ n :: after) (hx : x ∈ nodes) (hlt : x.index < n.index) :
    x ∈ before := by
  have hsorted := h.sorted
  rw [hsplit, List.pairwise_append, List.pairwise_cons] at hsorted
  rw [hsplit, List.mem_append, List.mem_cons] at hx
  rcases hx with hx | rfl | hx
  · exact hx
  · exact absurd hlt (Nat.lt_irrefl _)
  · have := hsorted.2.1.1 x hx
    omega

/-- What every listed node inherits from its inputs holds of all of them: inputs come earlier. -/
theorem Lists.induction (h : w.Lists g roots nodes) (hw : w.WellFormed) {P : NodeRef → Prop}
    (step : ∀ n ∈ nodes, (∀ x ∈ (w.node n).inputs, P x) → P n) : ∀ n ∈ nodes, P n := by
  have hupto : ∀ i, ∀ n ∈ nodes, n.index < i → P n := by
    intro i
    induction i with
    | zero => exact fun n _ hi => absurd hi (Nat.not_lt_zero _)
    | succ i ih =>
      intro n hn hi
      refine step n hn fun x hx => ih x (h.inputs n hn x hx) ?_
      have := ((hw n (h.has n hn).2).earlier x hx).2
      omega
  exact fun n hn => hupto (n.index + 1) n hn (Nat.lt_succ_self _)

theorem Reaches.mono {roots' : List NodeRef} (hsubset : ∀ x ∈ roots, x ∈ roots') {x : NodeRef}
    (h : w.Reaches roots x) :
    w.Reaches roots' x := by
  induction h with
  | root hx => exact .root (hsubset _ hx)
  | input _ hx ih => exact .input ih hx

theorem not_reaches_nil {x : NodeRef} : ¬w.Reaches [] x := by
  intro h
  induction h with
  | root hx => exact absurd hx List.not_mem_nil
  | input _ _ ih => exact ih

/-- **What is listed is what the roots lead to.** -/
theorem mem_reachable_iff (hw : w.WellFormed) (hroots : ∀ x ∈ roots, w.Has x)
    (h : w.reachable roots = .ok nodes) {x : NodeRef} : x ∈ nodes ↔ w.Reaches roots x := by
  cases roots with
  | nil =>
    obtain rfl := Except.ok.inj h
    exact ⟨fun hx => absurd hx List.not_mem_nil, fun hx => absurd hx not_reaches_nil⟩
  | cons first rest =>
    have hlists := lists_of_reachable hw h
    constructor
    · intro hx
      rw [(reachable_eq_ok h).1, List.mem_filter, decide_eq_true_iff] at hx
      refine forall_mem_preorder (fun c hc y hy => ?_) (fun y hy => ?_) x hx.2
      · exact .input hc (List.mem_reverse.1 hy)
      · exact .root (List.mem_reverse.1 hy)
    · intro hx
      induction hx with
      | root hx => exact (hlists.roots _ hx).2 (hroots _ hx)
      | input _ hx ih => exact hlists.inputs _ ih _ hx

/-- A node is led to if some root reads it through any number of inputs. -/
theorem reaches_iff_reflTransGen {x : NodeRef} :
    w.Reaches roots x ↔ ∃ r ∈ roots, Relation.ReflTransGen
      (fun c y => y ∈ (w.node c).inputs) r x := by
  constructor
  · intro h
    induction h with
    | root hx => exact ⟨_, hx, .refl⟩
    | input _ hx ih =>
      obtain ⟨r, hr, hpath⟩ := ih
      exact ⟨r, hr, hpath.tail hx⟩
  · rintro ⟨r, hr, hpath⟩
    induction hpath with
    | refl => exact .root hr
    | tail _ hx ih => exact .input ih hx

/-- All that is found is listed, and found once. -/
theorem perm_discovered {first : NodeRef} {rest : List NodeRef}
    (h : w.reachable (first :: rest) = .ok nodes) :
    (w.discovered first.graph (first :: rest)).Perm nodes := by
  rw [(reachable_eq_ok h).1]
  refine (List.perm_ext_iff_of_nodup (w.nodup_discovered _ _)
    (nodup_of_sorted_index ((w.sorted_allNodes first.graph).filter _))).2 fun x => ?_
  rw [List.mem_filter, decide_eq_true_iff]
  exact ⟨fun hx => ⟨mem_of_mem_preorder hx, hx⟩, fun hx => hx.2⟩

/-- The nodes are in the order of the graph `g`, the roots and all inputs are among them, and each
one is a root or is read by another one. -/
def Collects (w : Workspace) (g : Nat) (roots nodes : List NodeRef) : Prop :=
  nodes.Pairwise (fun a b => a.index < b.index) ∧ (∀ n ∈ nodes, n.graph = g ∧ w.Has n) ∧
    (∀ r ∈ roots, r ∈ nodes) ∧ (∀ n ∈ nodes, ∀ x ∈ (w.node n).inputs, x ∈ nodes) ∧
    ∀ n ∈ nodes, n ∈ roots ∨ ∃ c ∈ nodes, n ∈ (w.node c).inputs

instance (w : Workspace) (g : Nat) (roots nodes : List NodeRef) :
    Decidable (w.Collects g roots nodes) :=
  inferInstanceAs (Decidable (_ ∧ _))

/-- Readers come later, so that they end at a root. -/
theorem Collects.reaches (h : w.Collects g roots nodes) (hw : w.WellFormed) :
    ∀ n ∈ nodes, w.Reaches roots n := by
  obtain ⟨-, hhas, -, -, hneeded⟩ := h
  have hfrom : ∀ k, ∀ n ∈ nodes, (w.graph g).nodes.size ≤ n.index + k → w.Reaches roots n := by
    intro k
    induction k with
    | zero =>
      intro n hn hle
      obtain ⟨rfl, hlt⟩ := hhas n hn
      exact absurd hlt (Nat.not_lt.2 hle)
    | succ k ih =>
      intro n hn hle
      rcases hneeded n hn with hroot | ⟨c, hc, hread⟩
      · exact .root hroot
      · have hlater := ((hw c (hhas c hc).2).earlier n hread).2
        exact .input (ih c hc (by omega)) hread
  exact fun n hn => hfrom _ n hn (Nat.le_add_left _ _)

/-- **A list that collects what roots depend on is the one that is found.** -/
theorem Built.reachable_eq (hbuilt : w.Built) (g : Nat) (h : w.Collects g roots nodes) :
    w.reachable roots = .ok nodes := by
  have hw := hbuilt.wellFormed
  obtain ⟨hsorted, hhas, hroots, hinputs, -⟩ := id h
  obtain ⟨found, hfound⟩ := exists_reachable hw fun r hr => (hhas r (hroots r hr)).1
  have hmem : ∀ x, x ∈ found ↔ x ∈ nodes := by
    intro x
    rw [mem_reachable_iff hw (fun r hr => (hhas r (hroots r hr)).2) hfound]
    constructor
    · intro hx
      induction hx with
      | root hx => exact hroots _ hx
      | input _ hx ih => exact hinputs _ ih _ hx
    · exact h.reaches hw x
  have hfoundSorted : found.Pairwise fun a b => a.index < b.index := by
    cases roots with
    | nil =>
      obtain rfl := Except.ok.inj hfound
      exact .nil
    | cons first rest => exact (lists_of_reachable hw hfound).sorted
  have hperm := (List.perm_ext_iff_of_nodup (nodup_of_sorted_index hfoundSorted)
    (nodup_of_sorted_index hsorted)).2 hmem
  rw [hfound, hperm.eq_of_pairwise
    (fun a b _ _ hab hba => absurd hab (Nat.lt_asymm hba)) hfoundSorted hsorted]

/-- **What roots depend on is listed exactly.**  Listing fails only because of a root of another
graph, never because of a cycle.  Otherwise the search follows each node once, and the list has, in
the order of the graph, the nodes that some root reads through any number of inputs, each one after
its own inputs. -/
theorem reachable_exact (hw : w.Built) {first : NodeRef} {rest : List NodeRef}
    (hroots : ∀ r ∈ first :: rest, w.Has r) :
    ((∃ e, w.reachable (first :: rest) = .error e) ↔ ∃ r ∈ first :: rest, r.graph ≠ first.graph) ∧
      (∀ e, w.reachable (first :: rest) = .error e →
        ∃ r ∈ first :: rest, r.graph ≠ first.graph ∧ e = .foreignRoot r first) ∧
      ∀ nodes, w.reachable (first :: rest) = .ok nodes →
        (w.discovered first.graph (first :: rest)).Perm nodes ∧ nodes.Nodup ∧
        nodes.Pairwise (fun a b => a.index < b.index) ∧
        (∀ before n after, nodes = before ++ n :: after → ∀ x ∈ (w.node n).inputs, x ∈ before) ∧
        ∀ x, x ∈ nodes ↔
          ∃ r ∈ first :: rest, Relation.ReflTransGen (fun c y => y ∈ (w.node c).inputs) r x := by
  have hwf : w.WellFormed := hw.wellFormed
  have herror : ∀ e, w.reachable (first :: rest) = .error e →
      ∃ r ∈ first :: rest, r.graph ≠ first.graph ∧ e = .foreignRoot r first := by
    intro e he
    by_cases hforeign : ∃ r ∈ first :: rest, r.graph ≠ first.graph
    · obtain ⟨r, hr, hne, hreach⟩ := w.exists_foreignRoot hforeign
      exact ⟨r, hr, hne, Except.error.inj (he.symm.trans hreach)⟩
    · obtain ⟨nodes, hreach⟩ := exists_reachable hwf fun r hr =>
        Decidable.not_not.1 fun hne => hforeign ⟨r, hr, hne⟩
      rw [hreach] at he
      cases he
  refine ⟨⟨?_, ?_⟩, herror, fun nodes hreach => ?_⟩
  · rintro ⟨e, he⟩
    obtain ⟨r, hr, hne, -⟩ := herror e he
    exact ⟨r, hr, hne⟩
  · intro hforeign
    obtain ⟨r, -, -, hreach⟩ := w.exists_foreignRoot hforeign
    exact ⟨_, hreach⟩
  · have hlists := lists_of_reachable hwf hreach
    refine ⟨perm_discovered hreach, nodup_of_sorted_index hlists.sorted, hlists.sorted,
      ?_, fun x => ?_⟩
    · intro before n after hsplit x hx
      have hn : n ∈ nodes := by simp [hsplit]
      exact hlists.mem_before hsplit (hlists.inputs n hn x hx)
        ((hwf n (hlists.has n hn).2).earlier x hx).2
    · rw [mem_reachable_iff hwf hroots hreach, reaches_iff_reflTransGen]

/-- Two graphs.  In the first one `abs` is read by `add` and by `mul`, which reads `add` as well,
and nothing reads `exp`. -/
def sharedReads : Workspace :=
  ((Workspace.empty.addGraph "shared").addGraph "other").calls
    [.placeholder 0 "x" .float32 [⟨16, 15⟩], .placeholder 0 "y" .float32 [⟨16, 15⟩],
      .unary (.unary .exp) ⟨0, 1⟩, .unary (.unary .abs) ⟨0, 0⟩,
      .binary (.binary .add) (.node ⟨0, 3⟩) (.node ⟨0, 0⟩),
      .binary (.binary .mul) (.node ⟨0, 4⟩) (.node ⟨0, 3⟩), .placeholder 1 "z" .float32 [⟨16, 15⟩]]

theorem reachable_exact_sharedReads :
    sharedReads.Built ∧ (∀ r ∈ [⟨0, 5⟩, ⟨0, 3⟩, ⟨0, 5⟩], sharedReads.Has r) ∧
      (∃ nodes, sharedReads.reachable [⟨0, 5⟩, ⟨0, 3⟩, ⟨0, 5⟩] = .ok nodes ∧ nodes.Nodup ∧
        ∀ x, x ∈ nodes ↔ x ∈ [⟨0, 0⟩, ⟨0, 3⟩, ⟨0, 4⟩, ⟨0, 5⟩]) ∧
      sharedReads.reachable [⟨0, 5⟩, ⟨0, 3⟩, ⟨1, 0⟩] = .error (.foreignRoot ⟨1, 0⟩ ⟨0, 5⟩) := by
  have hbuilt : sharedReads.Built :=
    ((Built.empty.addGraph "shared").addGraph "other").calls (by decide)
  have hroots : ∀ r ∈ [⟨0, 5⟩, ⟨0, 3⟩, ⟨0, 5⟩], sharedReads.Has r := by decide
  obtain ⟨hfails, -, hlists⟩ := reachable_exact hbuilt hroots
  obtain ⟨hfails', herror, -⟩ := @reachable_exact sharedReads hbuilt ⟨0, 5⟩ [⟨0, 3⟩, ⟨1, 0⟩]
    (by decide)
  refine ⟨hbuilt, hroots, ?_, ?_⟩
  · cases hreach : sharedReads.reachable [⟨0, 5⟩, ⟨0, 3⟩, ⟨0, 5⟩] with
    | error e => exact absurd (hfails.1 ⟨e, hreach⟩) (by decide)
    | ok nodes =>
      obtain ⟨-, hnodup, -, -, hmem⟩ := hlists nodes hreach
      refine ⟨nodes, rfl, hnodup, fun x => (hmem x).trans ⟨?_, fun hx => ?_⟩⟩
      · -- the four nodes read each other only
        rintro ⟨r, hr, hpath⟩
        have hclosed : ∀ c ∈ [⟨0, 0⟩, ⟨0, 3⟩, ⟨0, 4⟩, ⟨0, 5⟩], ∀ y ∈ (sharedReads.node c).inputs,
            y ∈ [(⟨0, 0⟩ : NodeRef), ⟨0, 3⟩, ⟨0, 4⟩, ⟨0, 5⟩] := by decide
        induction hpath with
        | refl => exact (by decide : ∀ r ∈ [(⟨0, 5⟩ : NodeRef), ⟨0, 3⟩, ⟨0, 5⟩], r ∈ _) r hr
        | tail _ hx ih => exact hclosed _ ih _ hx
      · -- each of them is read by `mul` or by what that reads
        have hadd : Relation.ReflTransGen (fun c y => y ∈ (sharedReads.node c).inputs)
            ⟨0, 5⟩ ⟨0, 4⟩ :=
          Relation.ReflTransGen.refl.tail (by decide)
        have habs : Relation.ReflTransGen (fun c y => y ∈ (sharedReads.node c).inputs)
            ⟨0, 5⟩ ⟨0, 3⟩ :=
          hadd.tail (by decide)
        refine ⟨⟨0, 5⟩, by simp, ?_⟩
        simp only [List.mem_cons, List.not_mem_nil, or_false] at hx
        rcases hx with rfl | rfl | rfl | rfl
        · exact habs.tail (by decide +kernel)
        · exact habs
        · exact hadd
        · exact .refl
  · obtain ⟨e, he⟩ := hfails'.2 (by decide)
    obtain ⟨r, hr, hne, rfl⟩ := herror e he
    simp only [List.mem_cons, List.not_mem_nil, or_false] at hr
    rcases hr with rfl | rfl | rfl
    · exact absurd rfl hne
    · exact absurd rfl hne
    · exact he

end Workspace
end LanePadding
