import LanePadding.Proofs.Answers

/-!
# Analyses succeed

An analysis of an admissible graph never fails.  A simulated tensor is typed (`Entry.Typed`), and on
typed operands the equation of every node has a solution, which is typed again: this is the
invariant.  What a node needs besides is that it was made by a builder.

The only step that looks for a value is the one that makes a tensor safe for its consumers.  It
finds one, since every rule allows one and the rules that allow zero as their fallback are all the
same (`FaultRule.returns_fill?`).

## What is here

* `Run.exists_infer` — the equation of a node has a solution of the node's element type.
* `FaultRule.returns_fill?` — there is a fill for any rules.
* `Engine.Complete.analyses` — every analysis of an admissible graph succeeds.
-/

set_option autoImplicit false

namespace LanePadding

/-! ## Equations have solutions -/

/-- What an engine needs to analyse all admissible graphs. -/
structure Engine.Complete (engine : Engine) : Prop where
  platform : engine.platform.Complete
  inputs : ∀ p ∈ engine.inputPadding, p.content.isKnown = true

theorem Returns.exists_toOption_map {ε α β : Type} {x : Except ε α} {f : α → β} {P : β → Prop}
    (h : Returns x fun a => P (f a)) : ∃ b, x.toOption.map f = some b ∧ P b := by
  obtain ⟨a, rfl, ha⟩ := h
  exact ⟨f a, rfl, ha⟩

namespace Run

variable {w : Workspace} {g : Nat} {n : NodeRef} {r r' : Run} {engine : Engine}

section

variable (htyped : ∀ x ∈ (w.node n).inputs, (r.entry x).Typed (w.node x).dtype)
include htyped

/-- What the padding lanes of a node see in an operand is of the operand's element type. -/
theorem exists_seesAt {i : Nat} {a : Operand} (ha : (w.node n).operands[i]? = some a) :
    ∃ p, r.seesAt w n i = some p ∧ p.content.OfType (w.operandDType a) := by
  rw [seesAt, ha, Option.bind_some]
  cases a with
  | scalar v => exact ⟨_, rfl, rfl⟩
  | symbol name d => exact ⟨_, rfl, trivial⟩
  | node x =>
    have hx : x ∈ (w.node n).inputs := List.mem_filterMap.2 ⟨_, List.mem_of_getElem? ha, rfl⟩
    obtain ⟨p, hp, hcontent⟩ := (htyped x hx).read x (some n)
    have hread : r.read x (some n) = some p := hp
    rw [sees]
    split_ifs
    · exact ⟨p.clone, by rw [hread]; rfl, hcontent⟩
    · exact ⟨p.meetData, by rw [hread]; rfl, p.ofType_meetData _⟩
    · exact ⟨_, rfl, trivial⟩

theorem exists_compared (hengine : engine.platform.Complete) {mode : CompareMode}
    (hmode : mode.isKnown = true) {a b : Operand} {rest : List Operand}
    (hoperands : (w.node n).operands = a :: b :: rest) (hab : w.operandDType a = w.operandDType b)
    (hd : (w.operandDType a).isSupported = true) :
    ∃ p, r.compared w engine n mode = some p ∧ p.content.OfType .bool := by
  obtain ⟨left, hleft, hl⟩ :=
    exists_seesAt htyped (show (w.node n).operands[0]? = some a by simp [hoperands])
  obtain ⟨right, hright, hr⟩ :=
    exists_seesAt htyped (show (w.node n).operands[1]? = some b by simp [hoperands])
  obtain ⟨p, hp, hbool⟩ := hengine.returns_comparePadding hmode hd hl (hab ▸ hr)
  refine ⟨p, ?_, hbool⟩
  rw [compared, hleft, hright, Option.bind_some, Option.bind_some, hp]
  rfl

/-- A selection between typed branches is typed. -/
theorem exists_selectContent {k : Content} (hk : k.OfType .bool) {i j : Nat} {t f : Operand}
    (ht : (w.node n).operands[i]? = some t) (hf : (w.node n).operands[j]? = some f) {d : DType}
    (htd : w.operandDType t = d) (hfd : w.operandDType f = d) :
    ∃ content, selectContent k (r.seesAt w n i) (r.seesAt w n j) = some content ∧
      content.OfType d := by
  obtain ⟨pt, hpt, htrue⟩ := exists_seesAt htyped ht
  obtain ⟨pf, hpf, hfalse⟩ := exists_seesAt htyped hf
  rw [htd] at htrue
  rw [hfd] at hfalse
  -- both branches are compared if the condition is not known
  have hboth : ∃ content, (if pt.sameValue pf then some pt.content
      else if k = .unconstrained ∨ pt.content = .unconstrained ∨ pf.content = .unconstrained then
        some .unconstrained
      else some (.dependent none)) = some content ∧ content.OfType d := by
    split_ifs
    · exact ⟨_, rfl, htrue⟩
    · exact ⟨_, rfl, trivial⟩
    · exact ⟨_, rfl, trivial⟩
  rw [hpt, hpf]
  cases k with
  | exact v =>
    rw [selectContent]
    split_ifs
    · exact ⟨_, rfl, hfalse⟩
    · exact ⟨_, rfl, htrue⟩
  | dependent e => exact hboth
  | unconstrained => exact hboth
  | unknown code => exact hk.elim

theorem exists_infer_reduce (hengine : engine.platform.Complete) {fn : ReduceFn} {axes : List Nat}
    {keep : Bool} (hop : (w.node n).op = .reduce fn axes keep) {x : NodeRef}
    (hx : (w.node n).operands = [.node x]) (hd : (w.node x).dtype.isSupported = true) :
    ∃ content, r.infer w engine n = some content ∧ content.OfType (w.node x).dtype := by
  have hinput : x ∈ (w.node n).inputs := by simp [Node.inputs, hx, Operand.node?]
  simp only [infer, hop, hx, List.getElem?_cons_zero, Option.bind_some, Operand.node?]
  split_ifs
  · obtain ⟨p, hp, hcontent⟩ := (htyped x hinput).read x (some n)
    rw [show r.read x (some n) = some p from hp]
    exact (PaddingValue.returns_reducePadding fn _ hd hcontent).exists_toOption_map
  · exact Returns.exists_toOption_map (P := Content.OfType _) (hengine.returns_neutral fn hd)

theorem exists_infer_binary (hengine : engine.platform.Complete) {fn : BinaryFn}
    (hop : (w.node n).op = .binary fn) {a b : Operand} (hoperands : (w.node n).operands = [a, b])
    {d : DType} (ha : w.operandDType a = d) (hb : w.operandDType b = d)
    (hd : d.isSupported = true) :
    ∃ content, r.infer w engine n = some content ∧ content.OfType d := by
  obtain ⟨left, hleft, hl⟩ :=
    exists_seesAt htyped (show (w.node n).operands[0]? = some a by simp [hoperands])
  obtain ⟨right, hright, hr⟩ :=
    exists_seesAt htyped (show (w.node n).operands[1]? = some b by simp [hoperands])
  simp only [infer, hop, hleft, hright]
  exact (hengine.returns_binaryPadding fn hd (ha ▸ hl) (hb ▸ hr)).exists_toOption_map

theorem exists_infer_select (hop : (w.node n).op = .select) {c t f : Operand}
    (hoperands : (w.node n).operands = [c, t, f]) (hc : w.operandDType c = .bool) {d : DType}
    (ht : w.operandDType t = d) (hf : w.operandDType f = d) :
    ∃ content, r.infer w engine n = some content ∧ content.OfType d := by
  obtain ⟨cond, hcond, hcontent⟩ :=
    exists_seesAt htyped (show (w.node n).operands[0]? = some c by simp [hoperands])
  simp only [infer, condition?, hop, hcond]
  exact exists_selectContent htyped (hc ▸ hcontent) (by rw [hoperands]; rfl)
    (by rw [hoperands]; rfl) ht hf

theorem exists_infer_cmpSel (hengine : engine.platform.Complete) {mode : CompareMode}
    (hop : (w.node n).op = .cmpSel mode) (hmode : mode.isKnown = true) {a b t f : Operand}
    (hoperands : (w.node n).operands = [a, b, t, f]) (hab : w.operandDType a = w.operandDType b)
    (hd : (w.operandDType a).isSupported = true) {d : DType} (ht : w.operandDType t = d)
    (hf : w.operandDType f = d) :
    ∃ content, r.infer w engine n = some content ∧ content.OfType d := by
  obtain ⟨cond, hcond, hcontent⟩ := exists_compared htyped hengine hmode hoperands hab hd
  simp only [infer, condition?, hop, hcond]
  exact exists_selectContent htyped hcontent (by rw [hoperands]; rfl) (by rw [hoperands]; rfl)
    ht hf

/-- **The equation of a node has a solution** of its element type, once its inputs are
simulated. -/
theorem exists_infer (hengine : engine.Complete) (hw : w.WellFormed) (hg : w.Admissible g)
    (hgraph : n.graph = g) (hhas : w.Has n) :
    ∃ content, r.infer w engine n = some content ∧ content.OfType (w.node n).dtype := by
  have hdtype := hg.isSupported hw hgraph hhas
  have hoperand : ∀ {o}, o ∈ (w.node n).operands → (w.operandDType o).isSupported = true :=
    fun ho => hg.isSupported_operand hw hgraph hhas ho
  have hoperands := (hw n hhas).operands_typed
  have hfirst : ∀ {a rest}, (w.node n).operands = a :: rest →
      ∃ p, r.seesAt w n 0 = some p ∧ p.content.OfType (w.operandDType a) :=
    fun h => exists_seesAt htyped (by simp [h])
  cases hop : (w.node n).op <;> rw [hop] at hoperands
  case reduce fn axes keep =>
    obtain ⟨x, hx, hd⟩ := hoperands
    rw [← hd] at hdtype ⊢
    exact exists_infer_reduce htyped hengine.platform hop hx hdtype
  case binary fn =>
    obtain ⟨a, b, hab, hda, hdb⟩ := hoperands
    exact exists_infer_binary htyped hengine.platform hop hab hda hdb hdtype
  case select =>
    obtain ⟨c, t, f, hctf, hc, ht, hf⟩ := hoperands
    exact exists_infer_select htyped hop hctf hc ht hf
  case cmpSel mode =>
    obtain ⟨a, b, t, f, habtf, hmode, hd, ht, hf⟩ := hoperands
    exact exists_infer_cmpSel htyped hengine.platform hop hmode habtf hd
      (hoperand (by simp [habtf])) ht hf
  all_goals simp only [infer, hop]
  case placeholder declared =>
    refine (RunM.returns_simulatePlaceholder hengine.inputs hoperands.1
      fun p hp => ?_).exists_toOption_map
    obtain rfl : declared = some p := hp
    exact Content.ofType_iff.2 ⟨hg.declared hgraph hhas hop, hoperands.2 p rfl⟩
  case constant v => exact ⟨_, rfl, hoperands.2⟩
  case unary fn =>
    obtain ⟨a, ha, hd⟩ := hoperands
    obtain ⟨p, hp, hcontent⟩ := hfirst ha
    rw [hp]
    exact (PaddingValue.returns_unaryPadding fn _ hdtype (hd ▸ hcontent)).exists_toOption_map
  case cast =>
    obtain ⟨a, ha, -⟩ := hoperands
    obtain ⟨p, hp, -⟩ := hfirst ha
    rw [hp]
    exact (PaddingValue.returns_castPadding hdtype).exists_toOption_map
  case broadcast =>
    obtain ⟨a, ha, hd⟩ := hoperands
    obtain ⟨p, hp, hcontent⟩ := hfirst ha
    rw [hp]
    exact ⟨_, rfl, hd ▸ hcontent⟩
  case compare mode =>
    obtain ⟨a, b, hab, hmode, hbool, hd⟩ := hoperands
    obtain ⟨p, hp, hcontent⟩ :=
      exists_compared htyped hengine.platform hmode hab hd (hoperand (by simp [hab]))
    exact ⟨_, by rw [hp]; rfl, hbool ▸ hcontent⟩
  case invalid | unknown => exact hoperands.elim

end

end Run

/-! ## Making a tensor safe -/

namespace FaultRule

theorem safe_one (rule : FaultRule) : rule.safe .one = true := by
  cases rule <;> decide +kernel

/-- A fill is found among candidates of which one meets all rules. -/
theorem returns_fill?_of_mem {rules candidates : List FaultRule} {d : DType}
    (hd : d.isSupported = true) {rule : FaultRule} (hrule : rule ∈ candidates)
    (hsafe : allSafe rules (d.round rule.fallback) = true) :
    Returns (fill? rules d candidates) fun v => ∃ u, v = some u ∧ u.dtype = d := by
  induction candidates with
  | nil => simp at hrule
  | cons first rest ih =>
    have hfirst : Scalar.ofDouble d first.fallback = .ok ⟨d, d.round first.fallback⟩ := if_pos hd
    rw [fill?, hfirst]
    change Returns (if allSafe rules (d.round first.fallback) = true then _ else _) _
    split_ifs with hok
    · exact returns_ok ⟨_, rfl, rfl⟩
    · refine ih ((List.mem_cons.1 hrule).resolve_left fun heq => ?_)
      subst heq
      exact hok hsafe

/-- **There is a fill for any rules**: one meets all of them, and zero is only tried where all rules
allow it. -/
theorem returns_fill? {rules : List FaultRule} (hrules : rules ≠ []) {d : DType}
    (hd : d.isSupported = true) :
    Returns (fill? rules d rules) fun v => ∃ u, v = some u ∧ u.dtype = d := by
  by_cases hall : ∀ rule ∈ rules, rule = .nonNegative
  · obtain ⟨rule, hrule⟩ := List.exists_mem_of_ne_nil _ hrules
    refine returns_fill?_of_mem hd hrule (List.all_eq_true.2 fun other hother => ?_)
    obtain rfl := hall rule hrule
    obtain rfl := hall other hother
    change FaultRule.nonNegative.safe (d.round .zero) = true
    rw [DType.round_zero]
    exact safe_zero_iff.2 rfl
  · push Not at hall
    obtain ⟨rule, hrule, hne⟩ := hall
    refine returns_fill?_of_mem hd hrule (List.all_eq_true.2 fun other _ => ?_)
    rw [rule.fallback_cases.resolve_right hne, DType.round_one]
    exact safe_one other

end FaultRule

/-! ## A whole run -/

theorem Entry.Typed.isSome_padding {e : Entry} {d : DType} (h : e.Typed d) :
    e.padding.isSome = true := by
  obtain ⟨p, hp, -⟩ := h.padding
  simp [hp]

namespace Run

variable {w : Workspace} {g : Nat} {roots nodes outputs done : List NodeRef} {n : NodeRef}
  {r r₁ r' : Run} {engine : Engine} {content : Content}

/-- A node whose content was just noted is typed. -/
theorem typed_store (hn : Next w g nodes done n) (hr : Coherent w g nodes outputs done r)
    (hgrown : Grown w g (some n) (· ∈ (w.node n).inputs) r r₁)
    (hcontent : content.OfType (w.node n).dtype) :
    ((r₁.store n content).entry n).Typed (w.node n).dtype := by
  rw [entry_store (hgrown.size ▸ hn.index_lt hr), if_pos rfl,
    hgrown.untouched n hn.graph hn.not_mem_inputs]
  refine ⟨⟨_, rfl, hcontent⟩, fun s hs => ?_⟩
  simp [(hr.blank n hn.graph hn.has hn.fresh).2] at hs

/-- **One step keeps the element types** of all simulated tensors, the new one included. -/
theorem Stepped.typed (h : Stepped w engine g n r r₁ content r') (hn : Next w g nodes done n)
    (hr : Coherent w g nodes outputs done r) (hcontent : content.OfType (w.node n).dtype)
    (htyped : ∀ x ∈ done, (r.entry x).Typed (w.node x).dtype) :
    ∀ x ∈ done ++ [n], (r'.entry x).Typed (w.node x).dtype := by
  have hsize : n.index < r₁.entries.size := h.grown.size ▸ hn.index_lt hr
  have hserves : ∀ x, x.graph = g → ((r₁.store n content).entry x).Typed (w.node x).dtype →
      (r'.entry x).Typed (w.node x).dtype := by
    intro x hx hstored
    have hpath := h.serves
    clear h
    induction hpath with
    | refl => exact hstored
    | tail _ hserve ih =>
      obtain ⟨c, -, hupdate⟩ := hserve
      exact hupdate.typed (hx.trans hn.graph.symm) ih
  intro x hx
  rcases List.mem_append.1 hx with hx | hx
  · obtain ⟨hgraph, -, -⟩ := hn.doneHas x hx
    have hne : x ≠ n := fun hxn => hn.fresh (hxn ▸ hx)
    refine hserves x hgraph ?_
    rw [entry_store hsize, if_neg (index_ne hn.graph hgraph hne.symm)]
    exact h.grown.typed hgraph (htyped x hx)
  · obtain rfl := List.mem_singleton.1 hx
    exact hserves x hn.graph (typed_store hn hr h.grown hcontent)

/-- **One step succeeds.** -/
theorem exists_step (hengine : engine.Complete) (hw : w.WellFormed) (hg : w.Admissible g)
    (hn : Next w g nodes done n) (hr : Coherent w g nodes outputs done r)
    (htyped : ∀ x ∈ done, (r.entry x).Typed (w.node x).dtype) :
    ∃ r', (engine.step w n).Yields r () r' ∧ Coherent w g nodes outputs (done ++ [n]) r' ∧
      ∀ x ∈ done ++ [n], (r'.entry x).Typed (w.node x).dtype := by
  have hinputs : ∀ x ∈ (w.node n).inputs, (r.entry x).Typed (w.node x).dtype :=
    fun x hx => htyped x (hn.inputs x hx)
  obtain ⟨content, hinfer, hcontent⟩ := exists_infer hinputs hengine hw hg hn.graph hn.has
  have hreads : ∀ x ∈ (w.node n).inputs, ∀ p, r.read x (some n) = some p →
      p.content.Fits (w.node x).dtype := by
    intro x hx p hp
    obtain ⟨p', hp', hfits⟩ := (hinputs x hx).read x (some n)
    obtain rfl := Option.some.inj (hp.symm.trans hp')
    exact (Content.ofType_iff.1 hfits).2
  have hfill : r.sensitive w n ≠ [] →
      ∃ v, FaultRule.fill? (r.rules w n) (w.node n).dtype (r.rules w n) = .ok (some v) := by
    intro hsensitive
    obtain ⟨c, hc⟩ := List.exists_mem_of_ne_nil _ hsensitive
    obtain ⟨hc, happly⟩ := List.mem_filter.1 hc
    obtain ⟨rule, hrule⟩ := Option.isSome_iff_exists.1 happly
    obtain ⟨_, hv, v, rfl, -⟩ := FaultRule.returns_fill?
      (List.ne_nil_of_mem (List.mem_filterMap.2 ⟨c, hc, hrule⟩)) (hg.isSupported hw hn.graph hn.has)
    exact ⟨v, hv⟩
  obtain ⟨r₁, r', hstep, hstepped⟩ :=
    exists_stepped_of_infer hn hr (fun x hx => (htyped x hx).isSome_padding) hreads
    hinfer (Content.ofType_iff.1 hcontent).2 fun hsensitive _ => hfill hsensitive
  exact ⟨r', hstep, hr.step hn hstepped, hstepped.typed hn hr hcontent htyped⟩

/-- **A simulation succeeds.** -/
theorem exists_simulateFrom (hengine : engine.Complete) (hw : w.WellFormed) (hg : w.Admissible g)
    (hlists : w.Lists g roots nodes) (count i : Nat) {l : List NodeRef} (hsplit : nodes = done ++ l)
    (hr : Coherent w g nodes outputs done r)
    (htyped : ∀ x ∈ done, (r.entry x).Typed (w.node x).dtype) :
    ∃ r', engine.simulateFrom w count i l r = .ok r' ∧ r'.entries.size = (w.graph g).nodes.size ∧
      ∀ x ∈ nodes, (r'.entry x).Typed (w.node x).dtype := by
  induction l generalizing done r i with
  | nil =>
    rw [List.append_nil] at hsplit
    exact ⟨r, rfl, hr.size, hsplit ▸ htyped⟩
  | cons n l ih =>
    have hn := next_of_lists hw hlists hsplit
    obtain ⟨r₁, hstep, hr₁, htyped₁⟩ := exists_step hengine hw hg hn hr htyped
    have hon : (engine.step w n).on r = (.ok (), r₁) := hstep
    rw [Engine.simulateFrom, hon]
    exact ih (i + 1) (by simp [hsplit]) hr₁ htyped₁

/-- Outputs can be stored, and the element types are kept. -/
theorem succeeds_requireOutputs (engine : Engine) (hw : w.WellFormed) (hg : w.Admissible g)
    (hlists : w.Lists g roots nodes) (houtputs : ∀ x ∈ outputs, x ∈ roots)
    (hsize : r.entries.size = (w.graph g).nodes.size)
    (htyped : ∀ x ∈ nodes, (r.entry x).Typed (w.node x).dtype) :
    (RunM.requireOutputs w engine outputs).Succeeds r fun _ s =>
      ∀ x ∈ nodes, (s.entry x).Typed (w.node x).dtype := by
  refine (RunM.succeeds_requireOutputs (I := fun s => s.entries.size = (w.graph g).nodes.size ∧
    ∀ x ∈ nodes, (s.entry x).Typed (w.node x).dtype) ?_ ?_ ?_ ⟨hsize, htyped⟩).mono fun _ _ h => h.2
  · intro _ x hx hpadding
    obtain ⟨zero, hzero, -⟩ := Scalar.returns_ofDouble
      (hg.isSupported hw (hlists.roots x (houtputs x hx)).1 (has_of_hasPadding hpadding)) .zero
    exact ⟨zero, hzero⟩
  · rintro s ⟨hsize, htyped⟩ x hx hpadding
    obtain ⟨hgraph, hmem⟩ := hlists.roots x (houtputs x hx)
    have hhas : w.Has x := has_of_hasPadding hpadding
    refine ⟨?_, (htyped x (hmem hhas)).isSome_padding⟩
    rw [hsize, ← hgraph]
    exact hhas
  · rintro s s' c x t hx hupdate ⟨hsize, htyped⟩
    refine ⟨hupdate.size.trans hsize, fun y hy => ?_⟩
    exact hupdate.typed ((hlists.has y hy).1.trans (hlists.roots x (houtputs x hx)).1.symm)
      (htyped y hy)

end Run

namespace Engine

/-- The analysis of the roots succeeds.  It covers them, and what it finds out about a node fits the
node's element type. -/
def Analyses (engine : Engine) (w : Workspace) (roots : List NodeRef) : Prop :=
  ∃ a, engine.analyze w roots = .ok a ∧ (∀ x ∈ roots, x ∈ a.nodes) ∧
    ∀ x ∈ a.nodes, (a.run.entry x).Typed (w.node x).dtype

/-- **Every analysis of an admissible graph succeeds.** -/
theorem Complete.analyses {engine : Engine} (hengine : engine.Complete) {w : Workspace}
    (hw : w.WellFormed) {g : Nat} (hg : w.Admissible g) {roots : List NodeRef} (hne : roots ≠ [])
    (hroots : ∀ x ∈ roots, x.graph = g ∧ w.Has x) : engine.Analyses w roots := by
  obtain ⟨nodes, hreach⟩ := w.exists_reachable hw fun x hx => (hroots x hx).1
  obtain ⟨first, rest, rfl⟩ := List.exists_cons_of_ne_nil hne
  obtain rfl := (hroots first (by simp)).1
  have hlists := Workspace.lists_of_reachable hw hreach
  have hsplit : nodes = [] ++ nodes := rfl
  obtain ⟨simulated, hsimulated, hsize, htyped⟩ :=
    Run.exists_simulateFrom hengine hw hg hlists nodes.length 0
    hsplit (Run.coherent_initial w _ nodes (distinct (first :: rest))) (by simp)
  obtain ⟨u, final, houtputs, hfinal⟩ := Run.succeeds_requireOutputs engine hw hg hlists
    (fun x hx => mem_distinct.1 hx) hsize htyped
  refine ⟨⟨first.graph, nodes, final⟩,
    analyze_eq_ok.2 ⟨first, rest, simulated, rfl, rfl, hreach, hsimulated, houtputs⟩,
    fun x hx => ?_, hfinal⟩
  exact (hlists.roots x hx).2 (hroots x hx).2

end Engine
end LanePadding
