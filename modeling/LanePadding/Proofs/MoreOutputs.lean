import LanePadding.Proofs.Replay

/-!
# Analysing more outputs

An analysis covers the nodes that its roots lead to.  With more roots there are more nodes, and
tensors may get further readers: what was written for all readers is then written for some, and
further constants may be demanded.  Yet nothing that was inferred changes, provided that no tensor
has to be made safe for one of the new readers (`Workspace.Widens`): what such a reader needs would
be written for everybody.  Moreover, whatever lets the analysis of the old outputs fail lets the
analysis of all outputs fail, too.  There has to be an old output at all, since an analysis without
roots is refused.

## What is here

* `Workspace.Widens` — outputs are added without new readers that may fault.
* `Correspondence.refl` — nodes stand for themselves.
* `Engine.exists_analyze_of_widens` — what was inferred does not change.
-/

set_option autoImplicit false

namespace LanePadding

/-- The roots are among the others, and the others lead to no further node that may fault on the
padding lanes of a node that the roots lead to. -/
structure Workspace.Widens (w : Workspace) (roots roots' : List NodeRef) : Prop where
  has : ∀ x ∈ roots', w.Has x
  subset : ∀ x ∈ roots, x ∈ roots'
  faults : ∀ x c rule, w.Reaches roots x → w.Reaches roots' c → x ∈ (w.node c).inputs →
    (w.node c).FaultsOn x rule → (w.node c).readsOwnPadding (w.node x) = true → w.Reaches roots c

namespace Correspondence

/-- The nodes in the list stand for themselves. -/
def refl (nodes : List NodeRef) : Correspondence := ⟨fun x x' => x ∈ nodes ∧ x = x', Eq⟩

variable {nodes : List NodeRef} {c c' : Content}

theorem sameContent_refl_iff : (refl nodes).SameContent c c' ↔ c = c' := by
  constructor
  · intro h
    cases h with
    | copied h => exact congrArg (Content.dependent ∘ some) h
    | _ => rfl
  · rintro rfl
    cases c with
    | exact v => exact .exact v
    | dependent e =>
      cases e with
      | none => exact .computed
      | some e => exact .copied rfl
    | unconstrained => exact .unconstrained
    | unknown code => exact .unknown code

theorem sameOp_refl (op : Op) : (refl nodes).SameOp op op := by
  cases op with
  | placeholder declared =>
    cases declared with
    | none => exact .input
    | some p => exact .declared (sameContent_refl_iff.2 rfl)
  | _ => exact .other (by simp [Op.kind])

/-- Nodes that are listed with their inputs are the same as they are. -/
theorem sameNode_refl {n : Node} (h : ∀ x ∈ n.inputs, x ∈ nodes) : (refl nodes).SameNode n n := by
  refine ⟨sameOp_refl n.op, List.forall₂_same.2 fun a ha => ?_, rfl, rfl⟩
  cases a with
  | node x => exact .node ⟨h x (List.mem_filterMap.2 ⟨_, ha, rfl⟩), rfl⟩
  | scalar v => exact .scalar v
  | symbol name d => exact .symbol name d

theorem consistent_refl (engine : Engine) {w : Workspace}
    (hinputs : ∀ n ∈ nodes, ∀ x ∈ (w.node n).inputs, x ∈ nodes) :
    (refl nodes).Consistent engine w w := by
  constructor
  case unique =>
    constructor
    · rintro x x' y ⟨-, rfl⟩ ⟨-, rfl⟩
      rfl
    · rintro x x' y ⟨-, rfl⟩ ⟨-, rfl⟩
      rfl
  case same =>
    rintro x _ ⟨hx, rfl⟩
    exact sameNode_refl (hinputs x hx)
  case exprs =>
    rintro x _ ⟨-, rfl⟩ axes
    rfl
  case inputs => exact fun p _ => sameContent_refl_iff.2 rfl

end Correspondence

namespace Engine

variable {w : Workspace} {engine : Engine} {roots roots' : List NodeRef} {a' : Analysis}

/-- **Analysing more outputs does not change what was inferred.**  If the analysis of all outputs
succeeds, so does the analysis of some of them, and the padding lanes of its nodes hold the same in
both. -/
theorem exists_analyze_of_widens (hw : w.Built) (hwidens : w.Widens roots roots') (hne : roots ≠ [])
    (h' : engine.analyze w roots' = .ok a') :
    ∃ a, engine.analyze w roots = .ok a ∧ ∀ x, w.Reaches roots x →
      ∃ p p', a.padding? x = some p ∧ a'.padding? x = some p' ∧ p.content = p'.content := by
  obtain ⟨hhas, hsubset, hfaults⟩ := hwidens
  have hwf := hw.wellFormed
  obtain ⟨first', rest', -, hroots', hgraph', hreach', -⟩ := analyze_eq_ok.1 h'
  have hgraph : ∀ x ∈ roots', x.graph = a'.graph := by
    subst hroots'
    rw [hgraph']
    exact (Workspace.reachable_eq_ok hreach').2
  obtain ⟨nodes, hreach⟩ := w.exists_reachable hwf fun x hx => hgraph x (hsubset x hx)
  have hmem' : ∀ {x}, x ∈ a'.nodes ↔ w.Reaches roots' x :=
    Workspace.mem_reachable_iff hwf hhas hreach'
  have hmem : ∀ {x}, x ∈ nodes ↔ w.Reaches roots x :=
    Workspace.mem_reachable_iff hwf (fun x hx => hhas x (hsubset x hx)) hreach
  have hκ : (Correspondence.refl nodes).Embeds engine w nodes w a'.nodes := by
    constructor
    case toConsistent =>
      exact Correspondence.consistent_refl engine fun n hn x hx => hmem.2 (.input (hmem.1 hn) hx)
    case total => exact fun x hx => ⟨x, hx, rfl⟩
    case mem =>
      rintro x _ ⟨hx, rfl⟩
      exact ⟨hx, hmem'.2 ((hmem.1 hx).mono hsubset)⟩
    case rules =>
      rintro x _ ⟨hx, rfl⟩ rule
      constructor
      · rintro ⟨c, hc, hinput, hrule⟩
        exact ⟨c, hmem'.2 ((hmem.1 hc).mono hsubset), hinput, hrule⟩
      · rintro ⟨c, hc, hinput, hrule⟩
        obtain ⟨hfault, hreads⟩ := FaultRule.applying?_eq_some_iff.1 hrule
        exact ⟨c, hmem.2 (hfaults x c rule (hmem.1 hx) (hmem'.1 hc) hinput hfault hreads),
          hinput, hrule⟩
  obtain ⟨a, ha, hnodes, hsame⟩ := hκ.exists_analyze hwf hwf hne hreach h' fun x hx =>
    ⟨x, hsubset x hx, hmem.2 (.root hx), rfl⟩
  refine ⟨a, ha, fun x hx => ?_⟩
  obtain ⟨p, p', hp, hp', hcontent⟩ := hsame x x ⟨hmem.2 hx, rfl⟩
  refine ⟨p, p', ?_, ?_, Correspondence.sameContent_refl_iff.1 hcontent⟩
  · rw [padding?_of_mem hwf ha (hnodes ▸ hmem.2 hx), hp]
  · rw [padding?_of_mem hwf h' (hmem'.2 (hx.mono hsubset)), hp']

/-- Without any outputs there is nothing to analyse, and this is an error. -/
theorem not_exists_analyze_nil :
    Workspace.sharedInput.Built ∧ Workspace.sharedInput.Widens [] [⟨0, 1⟩, ⟨0, 2⟩, ⟨0, 3⟩] ∧
      (∃ a', default.analyze .sharedInput [⟨0, 1⟩, ⟨0, 2⟩, ⟨0, 3⟩] = .ok a') ∧
      ¬∃ a, default.analyze .sharedInput [] = .ok a := by
  obtain ⟨a', ha', -⟩ := exists_analyze_sharedInput
  refine ⟨Workspace.built_sharedInput, ⟨by decide, by simp, fun x c rule hx => ?_⟩,
    ⟨a', ha'⟩, ?_⟩
  · exact absurd hx Workspace.not_reaches_nil
  · rintro ⟨a, ha⟩
    exact absurd ha (by simp [analyze, throw, throwThe, MonadExceptOf.throw])

/-- The sum is added to the square root and the logarithm.  It demands zeros of the tensor that was
filled with ones to be safe, which does not change what the tensor itself is known to hold. -/
theorem exists_analyze_roots :
    Workspace.sharedInput.Widens [⟨0, 1⟩, ⟨0, 2⟩] [⟨0, 1⟩, ⟨0, 2⟩, ⟨0, 3⟩] ∧
      ∃ a, default.analyze .sharedInput [⟨0, 1⟩, ⟨0, 2⟩] = .ok a ∧
        (a.padding? ⟨0, 0⟩).map PaddingValue.content = some (.exact ⟨.float32, .zero⟩) := by
  have hreach : Workspace.sharedInput.reachable [⟨0, 1⟩, ⟨0, 2⟩, ⟨0, 3⟩] =
      .ok [⟨0, 0⟩, ⟨0, 1⟩, ⟨0, 2⟩, ⟨0, 3⟩] :=
    Workspace.built_sharedInput.reachable_eq 0 (by decide)
  have hhas : ∀ x ∈ [⟨0, 1⟩, ⟨0, 2⟩, (⟨0, 3⟩ : NodeRef)], Workspace.sharedInput.Has x := by
    decide
  have hinput : Workspace.sharedInput.Reaches [⟨0, 1⟩, ⟨0, 2⟩] ⟨0, 0⟩ :=
    .input (.root (by simp : (⟨0, 1⟩ : NodeRef) ∈ _)) (by decide)
  have hwidens : Workspace.sharedInput.Widens [⟨0, 1⟩, ⟨0, 2⟩] [⟨0, 1⟩, ⟨0, 2⟩, ⟨0, 3⟩] := by
    refine ⟨hhas, by simp, fun x c rule _ hc _ hfaults _ => ?_⟩
    rw [← Workspace.mem_reachable_iff Workspace.built_sharedInput.wellFormed hhas hreach] at hc
    simp only [List.mem_cons, List.not_mem_nil, or_false] at hc
    rcases hc with rfl | rfl | rfl | rfl
    · exact hinput
    · exact .root (by simp)
    · exact .root (by simp)
    · -- a sum does not fault
      have hop : (Workspace.sharedInput.node ⟨0, 3⟩).op = .reduce .sum [0] false := by
        decide
      cases hfaults <;> simp_all
  obtain ⟨a', ha', -, hpadding⟩ := exists_analyze_sharedInput
  obtain ⟨a, ha, hsame⟩ :=
    exists_analyze_of_widens Workspace.built_sharedInput hwidens (by simp) ha'
  obtain ⟨p, p', hp, hp', hcontent⟩ := hsame ⟨0, 0⟩ hinput
  refine ⟨hwidens, a, ha, ?_⟩
  rw [hp, Option.map_some, hcontent, ← hpadding, hp']
  rfl

end Engine
end LanePadding
