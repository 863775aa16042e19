import LanePadding.Proofs.Outcome
import LanePadding.Proofs.Realization

/-!
# Outputs of descriptions that list none

A description without outputs has those of its nodes as outputs that no definition reads.  Names are
compared with the texts of inputs for this, literals and symbols included, which makes no difference
since no name can be told for one of them (`Description.outputNames_eq_unread`).

The outputs cover the graph: going from a node to one that reads it ends at an output, since readers
come later in the order of the graph.  An analysis of the outputs is therefore one of all nodes
(`Description.outputs_cover`).

## What is here

* `Workspace.Realizes.mem_inputs_iff` — a node reads the nodes of the definitions that its own
  refers to.
* `Workspace.reaches_of_unread` — **every node is found from those that nothing reads.**
* `Workspace.reachable_eq_allNodes` — roots that lead to all nodes have all of them listed.
-/

set_option autoImplicit false

namespace LanePadding

/-! ## References and texts -/

theorem InputForm.eq_of_ofText {text name : String} (h : InputForm.ofText text = .reference name) :
    text = name := by
  rw [InputForm.ofText] at h
  split at h
  · cases h
  · cases h
  · exact InputForm.reference.inj h

namespace NodeDef

theorem mem_references {n : NodeDef} {x : String} :
    x ∈ n.references ↔ ∃ input ∈ n.inputs, InputForm.ofText input = .reference x := by
  simp only [references, inputForms, List.mem_filterMap, List.mem_map]
  constructor
  · rintro ⟨_, ⟨input, hinput, rfl⟩, hx⟩
    refine ⟨input, hinput, ?_⟩
    cases hform : InputForm.ofText input with
    | reference name =>
      rw [hform] at hx
      rw [Option.some.inj hx]
    | literal text => simp [hform, InputForm.reference?] at hx
    | symbol name => simp [hform, InputForm.reference?] at hx
  · rintro ⟨input, hinput, hform⟩
    exact ⟨_, ⟨input, hinput, rfl⟩, by rw [hform]; rfl⟩

/-- The name of a definition is among the texts of inputs only as a reference. -/
theorem name_mem_inputs_iff {n c : NodeDef} (hn : n.hasValidName = true) :
    n.name ∈ c.inputs ↔ n.name ∈ c.references := by
  rw [mem_references]
  constructor
  · exact fun hmem => ⟨_, hmem, InputForm.ofText_name hn⟩
  · rintro ⟨input, hinput, hform⟩
    exact InputForm.eq_of_ofText hform ▸ hinput

end NodeDef

/-- Without listed outputs, the outputs are the definitions that none refers to, as they are
declared. -/
theorem Description.outputNames_eq_unread {d : Description} (hd : d.Resolves)
    (houtputs : d.outputs = []) :
    d.outputNames = (d.nodes.filter fun n => ∀ c ∈ d.nodes, n.name ∉ c.references).map
      NodeDef.name := by
  rw [outputNames, houtputs, List.isEmpty_nil, if_pos rfl, List.filter_map]
  refine congrArg _ (List.filter_congr fun n hn => ?_)
  simp only [Function.comp_apply, List.mem_flatMap, NodeDef.name_mem_inputs_iff (hd.valid n hn),
    not_exists, not_and]

theorem Description.Resolves.mem_outputNames_iff {d : Description} (hd : d.Resolves)
    (houtputs : d.outputs = []) {n : NodeDef} (hn : n ∈ d.nodes) :
    n.name ∈ d.outputNames ↔ ∀ c ∈ d.nodes, n.name ∉ c.references := by
  rw [outputNames_eq_unread hd houtputs]
  simp only [List.mem_map, List.mem_filter, decide_eq_true_eq]
  constructor
  · rintro ⟨n', ⟨-, hunread⟩, hname⟩
    exact hname ▸ hunread
  · exact fun hunread => ⟨n, ⟨hn, hunread⟩, rfl⟩

/-! ## Every node is found -/

namespace Workspace

variable {w : Workspace} {g : Nat}

/-- If roots lead to all nodes of their graph, all of them are listed. -/
theorem reachable_eq_allNodes {first : NodeRef} {rest nodes : List NodeRef}
    (h : w.reachable (first :: rest) = .ok nodes)
    (hroots : ∀ r ∈ first :: rest, r ∈ w.allNodes first.graph)
    (hinputs : ∀ c ∈ w.allNodes first.graph, ∀ x ∈ (w.node c).inputs, x ∈ w.allNodes first.graph)
    (hall : ∀ x ∈ w.allNodes first.graph, w.Reaches (first :: rest) x) :
    nodes = w.allNodes first.graph := by
  have hfound : ∀ x, w.Reaches (first :: rest) x →
      x ∈ w.allNodes first.graph ∧ x ∈ w.discovered first.graph (first :: rest) := by
    intro x hx
    induction hx with
    | root hx => exact ⟨hroots _ hx, mem_preorder_of_pending (List.mem_reverse.2 hx) (hroots _ hx)⟩
    | input _ hx ih =>
      have hmem := hinputs _ ih.1 _ hx
      exact ⟨hmem, mem_preorder_of_next ih.2 (List.mem_reverse.2 hx) hmem⟩
  rw [(reachable_eq_ok h).1, List.filter_eq_self]
  exact fun x hx => by simpa using (hfound x (hall x hx)).2

/-- **Every node is found from those that nothing reads**: a reader comes later, so that going from
reader to reader comes to an end. -/
theorem reaches_of_unread {roots : List NodeRef}
    (hearlier : ∀ c ∈ w.allNodes g, ∀ x ∈ (w.node c).inputs, x.index < c.index)
    (hroots : ∀ x ∈ w.allNodes g, (∀ c ∈ w.allNodes g, x ∉ (w.node c).inputs) →
      x ∈ roots) {x : NodeRef}
    (hx : x ∈ w.allNodes g) : w.Reaches roots x := by
  induction hleft : (w.graph g).nodes.size - x.index using
    Nat.strong_induction_on generalizing x with
  | _ left ih =>
    by_cases hunread : ∀ c ∈ w.allNodes g, x ∉ (w.node c).inputs
    · exact .root (hroots x hx hunread)
    · push Not at hunread
      obtain ⟨c, hc, hread⟩ := hunread
      have hlt := hearlier c hc x hread
      have hbound : c.index < (w.graph g).nodes.size := by
        obtain ⟨rfl, hhas⟩ := mem_allNodes.1 hc
        exact hhas
      exact .input (ih _ (by omega) hc rfl) hread

namespace Realizes

variable {names : NodeNames} {defs : List NodeDef}

/-- **A node reads the nodes of what its definition refers to.** -/
theorem mem_inputs_iff (h : w.Realizes g names defs) {j : Nat} {n : NodeDef}
    (hj : defs[j]? = some n) {r : NodeRef} :
    r ∈ (w.node ⟨g, j⟩).inputs ↔ ∃ x ∈ n.references, names.find? x = some r := by
  have hrealized := h.realized j n hj
  rw [Node.inputs, Operand.mem_filterMap_node?]
  constructor
  · intro hr
    obtain ⟨k, hk, ho⟩ := List.getElem_of_mem hr
    have hinput := List.getElem?_eq_getElem (hrealized.length ▸ hk)
    obtain ⟨_, -, -, hdenotes⟩ :=
      hrealized.operands k _ (.node r) hinput (by rw [List.getElem?_eq_getElem hk, ho])
    obtain ⟨name, hform, hname⟩ := hdenotes.reference
    exact ⟨name, NodeDef.mem_references.2 ⟨_, List.mem_of_getElem? hinput, hform⟩, hname⟩
  · rintro ⟨x, hx, hr⟩
    obtain ⟨input, hinput, hform⟩ := NodeDef.mem_references.1 hx
    obtain ⟨k, hk, rfl⟩ := List.getElem_of_mem hinput
    have ho := List.getElem?_eq_getElem (hrealized.length.symm ▸ hk)
    obtain ⟨_, -, -, hdenotes⟩ := hrealized.operands k _ _ (List.getElem?_eq_getElem hk) ho
    rw [hform] at hdenotes
    obtain ⟨r', hr', hnode⟩ := hdenotes
    obtain rfl : r' = r := Option.some.inj (hr'.symm.trans hr)
    exact hnode ▸ List.mem_of_getElem? ho

theorem mem_allNodes_iff (h : w.Realizes g names defs) {x : NodeRef} :
    x ∈ w.allNodes g ↔ ∃ j n, defs[j]? = some n ∧ x = ⟨g, j⟩ := by
  rw [mem_allNodes]
  constructor
  · rintro ⟨rfl, hx⟩
    exact ⟨x.index, _, List.getElem?_eq_getElem (h.has_iff.1 hx), rfl⟩
  · rintro ⟨j, n, hj, rfl⟩
    exact ⟨rfl, h.has_iff.2 (List.getElem?_eq_some_iff.1 hj).1⟩

/-- What a node reads is in its graph, before it. -/
theorem earlier_of_mem_inputs (h : w.Realizes g names defs) {c x : NodeRef} (hc : c ∈ w.allNodes g)
    (hx : x ∈ (w.node c).inputs) : x ∈ w.allNodes g ∧ x.index < c.index := by
  obtain ⟨k, n, hk, rfl⟩ := h.mem_allNodes_iff.1 hc
  obtain ⟨name, hname, hfind⟩ := (h.mem_inputs_iff hk).1 hx
  obtain ⟨j, hlt, hfind'⟩ := h.earlier k n hk name hname
  obtain rfl : x = ⟨g, j⟩ := Option.some.inj (hfind.symm.trans hfind')
  exact ⟨mem_allNodes.2 (h.has_of_find hfind), hlt⟩

/-- A node is read exactly if a definition refers to its own. -/
theorem unread_iff (h : w.Realizes g names defs) {j : Nat} {n : NodeDef} (hj : defs[j]? = some n) :
    (∀ c ∈ w.allNodes g, ⟨g, j⟩ ∉ (w.node c).inputs) ↔ ∀ c ∈ defs, n.name ∉ c.references := by
  constructor
  · intro hunread c hc hname
    obtain ⟨k, hk⟩ := List.mem_iff_getElem?.1 hc
    exact hunread ⟨g, k⟩ (h.mem_allNodes_iff.2 ⟨k, c, hk, rfl⟩)
      ((h.mem_inputs_iff hk).2 ⟨_, hname, h.find j n hj⟩)
  · intro hunread c hc hread
    obtain ⟨k, reader, hk, rfl⟩ := h.mem_allNodes_iff.1 hc
    obtain ⟨x, hx, hfind⟩ := (h.mem_inputs_iff hk).1 hread
    obtain ⟨j', n', hj', rfl, hsame⟩ := h.found x _ hfind
    obtain rfl := (NodeRef.mk.inj hsame).2
    obtain rfl : n = n' := Option.some.inj (hj.symm.trans hj')
    exact hunread reader (List.mem_of_getElem? hk) hx

/-- Nodes that are found by names have these as labels. -/
theorem labels_of_findAll (h : w.Realizes g names defs) {wanted : List String}
    {found : List NodeRef} (hfound : wanted.map names.find? = found.map some) :
    found.map (fun r => (w.node r).label) = wanted := by
  refine List.ext_getElem? fun k => ?_
  have hk := congrArg (·[k]?) hfound
  simp only [List.getElem?_map] at hk ⊢
  cases hr : found[k]? with
  | none => simpa [hr] using hk
  | some r =>
    rw [hr] at hk
    obtain ⟨name, hname, hfind⟩ := Option.map_eq_some_iff.1 hk
    obtain ⟨j, n, hj, rfl, rfl⟩ := h.found name r hfind
    rw [hname, Option.map_some, (h.realized j n hj).label]

/-- The nodes that are found by names of definitions that none refers to are those that no node
reads. -/
theorem mem_found_iff_unread (h : w.Realizes g names defs) {found : List NodeRef}
    {wanted : List String} (hfound : wanted.map names.find? = found.map some)
    (hwanted : ∀ n ∈ defs, n.name ∈ wanted ↔ ∀ c ∈ defs, n.name ∉ c.references) {r : NodeRef} :
    r ∈ found ↔ r ∈ w.allNodes g ∧ ∀ c ∈ w.allNodes g, r ∉ (w.node c).inputs := by
  have hmem : r ∈ found ↔ ∃ name ∈ wanted, names.find? name = some r := by
    rw [← List.mem_map, hfound, List.mem_map_of_injective (Option.some_injective _)]
  rw [hmem]
  constructor
  · rintro ⟨name, hname, hfind⟩
    obtain ⟨j, n, hj, rfl, rfl⟩ := h.found name r hfind
    exact ⟨h.mem_allNodes_iff.2 ⟨j, n, hj, rfl⟩,
      (h.unread_iff hj).2 ((hwanted n (List.mem_of_getElem? hj)).1 hname)⟩
  · rintro ⟨hr, hunread⟩
    obtain ⟨j, n, hj, rfl⟩ := h.mem_allNodes_iff.1 hr
    exact ⟨n.name, (hwanted n (List.mem_of_getElem? hj)).2 ((h.unread_iff hj).1 hunread),
      h.find j n hj⟩

end Realizes
end Workspace

namespace Description

variable {d : Description} {w w' : Workspace} {m : Model}

/-- **Outputs that are not listed cover the graph.**  There is at least one.  They are the nodes of
the definitions that none refers to, as these are declared, and no node reads them.  Every node of
the graph is found from them, so that an analysis of the outputs is one of all nodes, in the order
of the graph. -/
theorem outputs_cover (hne : d.nodes ≠ []) (houtputs : d.outputs = [])
    (h : (ExceptT.run d.build).run w = (.ok m, w')) :
    m.outputs ≠ [] ∧
    m.outputs.map (fun r => (w'.node r).label) =
      (d.nodes.filter fun n => ∀ c ∈ d.nodes, n.name ∉ c.references).map NodeDef.name ∧
    (∀ r, r ∈ m.outputs ↔ r ∈ w'.allNodes m.graph ∧
      ∀ c ∈ w'.allNodes m.graph, r ∉ (w'.node c).inputs) ∧
    (∀ x ∈ w'.allNodes m.graph, w'.Reaches m.outputs x) ∧
    ∀ (engine : Engine) (a : Analysis), engine.analyze w' m.outputs = .ok a →
      a.nodes = w'.allNodes m.graph := by
  obtain ⟨order, horder, -, hrealizes, hfindAll⟩ := ensures_realizes m w' h
  have hd := resolves_of_order horder
  have hperm := (arranged_of_order horder).1
  have hfound := findAll_eq_ok hfindAll
  have hunread := outputNames_eq_unread hd houtputs
  have hnil : m.outputs ≠ [] := by
    intro hnil
    rw [hnil, List.map_nil, List.map_eq_nil_iff] at hfound
    exact outputNames_ne_nil horder hne hfound
  have hmem : ∀ r, r ∈ m.outputs ↔
      r ∈ w'.allNodes m.graph ∧ ∀ c ∈ w'.allNodes m.graph, r ∉ (w'.node c).inputs := by
    refine fun r => hrealizes.mem_found_iff_unread hfound fun n hn => ?_
    simp only [hperm.mem_iff] at hn ⊢
    exact hd.mem_outputNames_iff houtputs hn
  have hreaches : ∀ x ∈ w'.allNodes m.graph, w'.Reaches m.outputs x := fun x hx =>
    Workspace.reaches_of_unread (fun c hc x hx => (hrealizes.earlier_of_mem_inputs hc hx).2)
      (fun x hx hx' => (hmem x).2 ⟨hx, hx'⟩) hx
  refine ⟨hnil, ?_, hmem, hreaches, fun engine a ha => ?_⟩
  · rw [← hunread]
    exact hrealizes.labels_of_findAll hfound
  · obtain ⟨first, rest, -, hroots, -, hreachable, -⟩ := Engine.analyze_eq_ok.1 ha
    rw [hroots] at hreachable hreaches hmem
    have hfirst : first.graph = m.graph :=
      (Workspace.mem_allNodes.1 ((hmem first).1 List.mem_cons_self).1).1
    rw [← hfirst] at hreaches hmem hrealizes ⊢
    exact Workspace.reachable_eq_allNodes hreachable (fun r hr => ((hmem r).1 hr).1)
      (fun c hc x hx => (hrealizes.earlier_of_mem_inputs hc hx).1) hreaches

/-- The largest one of some numbers and the sum of their exponentials, listed before what they are
made of. -/
def maximumAndSum : Description where
  name := "softmax"
  nodes := [
    { NodeDef.blank with name := "hi", op := "ReduceMax", inputs := ["x"] },
    { NodeDef.blank with name := "e", op := "Exp", inputs := ["x"] },
    { NodeDef.blank with name := "s", op := "ReduceSum", inputs := ["e"] },
    { NodeDef.blank with name := "x", op := "Placeholder", dtype := "Float32", axes := [⟨16, 15⟩] }]
  outputs := []

theorem exists_build_maximumAndSum :
    ∃ m w', (ExceptT.run maximumAndSum.build).run .sharedExponential = (.ok m, w') ∧ m.graph = 1 ∧
      w'.allNodes 1 = [⟨1, 0⟩, ⟨1, 1⟩, ⟨1, 2⟩, ⟨1, 3⟩] := by
  have hbuilt : ∃ m, ((ExceptT.run maximumAndSum.build).run .sharedExponential).1 = .ok m ∧
      m.graph = 1 :=
    exists_ok_of_test (by decide +kernel)
  obtain ⟨m, hm, hgraph⟩ := hbuilt
  exact ⟨m, _, Prod.ext hm rfl, hgraph, by decide +kernel⟩

/-- Two nodes are left that nothing reads, and all four are analysed from them. -/
theorem outputs_cover_maximumAndSum :
    ∃ m w' a, (ExceptT.run maximumAndSum.build).run .sharedExponential = (.ok m, w') ∧
      m.outputs.map (fun r => (w'.node r).label) = ["hi", "s"] ∧ w'.Reaches m.outputs ⟨1, 0⟩ ∧
      Engine.analyze default w' m.outputs = .ok a ∧ a.nodes = [⟨1, 0⟩, ⟨1, 1⟩, ⟨1, 2⟩, ⟨1, 3⟩] := by
  obtain ⟨m, w', hm, hgraph, hnodes⟩ := exists_build_maximumAndSum
  have hne : maximumAndSum.nodes ≠ [] := by simp [maximumAndSum]
  obtain ⟨-, hlabels, -, hreaches, hanalysis⟩ := outputs_cover hne rfl hm
  rw [hgraph, hnodes] at hreaches hanalysis
  obtain ⟨hbuilt, hg, houtputs, hroots⟩ :=
    ensures_build Workspace.built_sharedExponential hne m w' hm
  have hcomplete : Engine.Complete default := ⟨Platform.complete_default, by decide⟩
  obtain ⟨a, ha, -⟩ := hcomplete.analyses hbuilt.wellFormed hg houtputs hroots
  exact ⟨m, w', a, hm, hlabels.trans (by decide), hreaches _ (by simp), ha,
    hanalysis _ a ha⟩

end Description
end LanePadding
