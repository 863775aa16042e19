import LanePadding.Proofs.Outcome

/-!
# Padding lanes never fault

A consumer that traps on some values, or makes a NaN or an infinity of them, must not find such a
value in the padding lanes of its operand.  The main result is `Engine.faultSafe_of_analyze`: after
every analysis that succeeds, such a consumer reads one scalar there which it can take, whatever
other readers of the same tensor demanded.  Where the tensor holds no scalar that suits all of them,
the first fill written into it is for all readers, and it is one, or zero if only square roots read
the tensor.

The fill does not depend on the order of the consumers (`FaultRule.value_of_fill?`), although it is
looked for among their fallbacks one after the other.
-/

set_option autoImplicit false

namespace LanePadding

open Number

/-! ## Rules -/

/-- The operator of `c` needs its operand `x` to meet a rule. -/
inductive Node.FaultsOn (c : Node) (x : NodeRef) : FaultRule → Prop
  | log (h : c.op = .unary .log) : FaultsOn c x .positive
  | rsqrt (h : c.op = .unary .rsqrt) : FaultsOn c x .positive
  | reciprocal (h : c.op = .unary .reciprocal) : FaultsOn c x .nonZero
  | sqrt (h : c.op = .unary .sqrt) : FaultsOn c x .nonNegative
  | div (h : c.op = .binary .div) (hx : c.operands[1]? = some (.node x)) : FaultsOn c x .nonZero

namespace FaultRule

theorem of?_eq_some_iff {c : Node} {x : NodeRef} {rule : FaultRule} :
    of? c x = some rule ↔ c.FaultsOn x rule := by
  constructor
  · intro h
    rw [of?] at h
    split at h
    · rename_i fn hop
      cases fn <;> simp only [ofUnary?, Option.some.injEq, reduceCtorEq] at h <;> subst h
      · exact .log hop
      · exact .sqrt hop
      · exact .rsqrt hop
      · exact .reciprocal hop
    · rename_i hop
      split at h
      · rename_i hx
        obtain rfl := Option.some.inj h
        exact .div hop hx
      · simp at h
    · simp at h
  · rintro (h | h | h | h | ⟨h, hx⟩)
    all_goals simp only [of?, h, ofUnary?]
    exact if_pos hx

theorem applying?_eq_some_iff {w : Workspace} {x c : NodeRef} {rule : FaultRule} :
    applying? w x c = some rule ↔
      (w.node c).FaultsOn x rule ∧ (w.node c).readsOwnPadding (w.node x) = true := by
  rw [applying?, ← of?_eq_some_iff]
  by_cases hreads : (w.node c).readsOwnPadding (w.node x) = true <;> simp [hreads]

theorem fallback_cases (rule : FaultRule) : rule.fallback = .one ∨ rule = .nonNegative := by
  cases rule <;> simp [fallback]

/-- Only square roots take zero. -/
theorem safe_zero_iff {rule : FaultRule} : rule.safe .zero = true ↔ rule = .nonNegative := by
  cases rule <;> decide

/-- **The fill does not depend on the order of the rules**: it is one, unless all rules allow
zero. -/
theorem value_of_fill? {rules : List FaultRule} {d : DType} {v : Scalar}
    (h : fill? rules d rules = .ok (some v)) :
    v.dtype = d ∧ ((∃ rule ∈ rules, rule ≠ .nonNegative) → v.value = .one) ∧
      ((∀ rule ∈ rules, rule = .nonNegative) → v.value = .zero) := by
  obtain ⟨hsafe, rule, hrule, hv⟩ := exists_of_fill? h
  obtain ⟨-, rfl⟩ := Scalar.ofDouble_eq_ok hv
  refine ⟨rfl, ?_, ?_⟩
  · rintro ⟨other, hother, hne⟩
    rcases rule.fallback_cases with hone | rfl
    · change d.round rule.fallback = .one
      rw [hone, DType.round_one]
    · -- the fill would be zero, which the other rule forbids
      have hzero : other.safe (d.round .zero) = true := List.all_eq_true.1 hsafe other hother
      rw [DType.round_zero, safe_zero_iff] at hzero
      exact absurd hzero hne
  · intro hall
    obtain rfl := hall rule hrule
    exact DType.round_zero d

end FaultRule

/-- Square roots are the operators whose rule allows zero. -/
theorem Node.FaultsOn.eq_nonNegative_iff {c : Node} {x : NodeRef} {rule : FaultRule}
    (h : c.FaultsOn x rule) : rule = .nonNegative ↔ c.op = .unary .sqrt := by
  cases h <;> simp_all

/-! ## Consumers that may fault -/

/-- The analysed consumer `c` needs the padding lanes of its operand `x` to meet a rule, since it
reads them. -/
structure Analysis.MayFault (a : Analysis) (w : Workspace) (x c : NodeRef) (rule : FaultRule) :
    Prop where
  mem : c ∈ a.nodes
  input : x ∈ (w.node c).inputs
  faults : (w.node c).FaultsOn x rule
  reads : (w.node c).readsOwnPadding (w.node x) = true

/-- The tensor's own padding value is one scalar that suits all consumers which may fault on it. -/
def Analysis.HoldsSafe (a : Analysis) (w : Workspace) (x : NodeRef) : Prop :=
  ∃ p v, a.padding? x = some p ∧ p.content = .exact v ∧
    ∀ c rule, a.MayFault w x c rule → rule.safe v.value = true

section

variable {w : Workspace} {engine : Engine} {outputs : List NodeRef} {a : Analysis} {x : NodeRef}

theorem Analysis.mayFault_iff (h : a.run.Outcome w engine a.graph a.nodes outputs)
    (hx : x.graph = a.graph) (hhas : w.Has x) {c : NodeRef} {rule : FaultRule} :
    a.MayFault w x c rule ↔
      c ∈ (a.run.entry x).consumers ∧ FaultRule.applying? w x c = some rule := by
  rw [h.consumers x hx hhas, List.mem_filter, decide_eq_true_iff, FaultRule.applying?_eq_some_iff]
  constructor
  · rintro ⟨hmem, hinput, hfaults, hreads⟩
    exact ⟨⟨hmem, hinput⟩, hfaults, hreads⟩
  · rintro ⟨⟨hmem, hinput⟩, hfaults, hreads⟩
    exact ⟨hmem, hinput, hfaults, hreads⟩

theorem Analysis.mem_rules_iff (h : a.run.Outcome w engine a.graph a.nodes outputs)
    (hx : x.graph = a.graph) (hhas : w.Has x) {rule : FaultRule} :
    rule ∈ a.run.rules w x ↔ ∃ c, a.MayFault w x c rule := by
  simp only [Run.rules, List.mem_filterMap, mayFault_iff h hx hhas]

/-- The fill that makes a tensor safe is the first action on it. -/
theorem Analysis.actions_of_filledFirst (h : a.run.Outcome w engine a.graph a.nodes outputs)
    (hx : x.graph = a.graph) (hhas : w.Has x) (hfilled : a.run.FilledFirst w x) :
    ∃ v rest, a.actions.filter (·.tensor = x) = ⟨x, .constant v, []⟩ :: rest ∧
      (∀ b ∈ rest, b.fill.isConstant = true → b.targets ≠ []) ∧ v.dtype = (w.node x).dtype ∧
      ((∃ c rule, a.MayFault w x c rule ∧ (w.node c).op ≠ .unary .sqrt) → v.value = .one) ∧
      ((∀ c rule, a.MayFault w x c rule → (w.node c).op = .unary .sqrt) → v.value = .zero) := by
  obtain ⟨v, s, rest, hsettings, hfill, htargets, hv, hrest⟩ := hfilled
  obtain ⟨hdtype, hone, hzero⟩ := FaultRule.value_of_fill? hv
  refine ⟨v, rest.map fun s => ⟨x, s.fill, s.targets⟩, ?_, ?_, hdtype, ?_, ?_⟩
  · rw [Analysis.actions, (h.emits x hx).actions_filter, hsettings, List.map_cons, hfill, htargets]
  · intro b hb hconst
    obtain ⟨s', hs', rfl⟩ := List.mem_map.1 hb
    refine hrest s' hs' ?_
    cases hs'fill : s'.fill with
    | constant u => simp [Setting.constant?, hs'fill]
    | position e => simp [hs'fill, Fill.isConstant] at hconst
  · rintro ⟨c, rule, hfault, hop⟩
    exact hone ⟨rule, (mem_rules_iff h hx hhas).2 ⟨c, hfault⟩,
      fun hrule => hop (hfault.faults.eq_nonNegative_iff.1 hrule)⟩
  · intro hall
    refine hzero fun rule hrule => ?_
    obtain ⟨c, hfault⟩ := (mem_rules_iff h hx hhas).1 hrule
    exact hfault.faults.eq_nonNegative_iff.2 (hall c rule hfault)

end

/-- **Fault safety.**  A consumer that may fault on the padding lanes of its operand reads one
scalar there that it can take.  If the operand's own padding value does not suit all such consumers,
the first action on the operand is an unconditional fill, the only one with a constant: one, or zero
if all of them are square roots. -/
theorem Engine.faultSafe_of_analyze {w : Workspace} (hw : w.Built) {engine : Engine}
    {roots : List NodeRef} {a : Analysis} (h : engine.analyze w roots = .ok a) {x c : NodeRef}
    {rule : FaultRule} (hfault : a.MayFault w x c rule) :
    (∃ p v, a.run.read x (some c) = some p ∧ p.content = .exact v ∧ rule.safe v.value = true) ∧
      (¬a.HoldsSafe w x → ∃ v rest,
        a.actions.filter (·.tensor = x) = ⟨x, .constant v, []⟩ :: rest ∧
        (∀ b ∈ rest, b.fill.isConstant = true → b.targets ≠ []) ∧ v.dtype = (w.node x).dtype ∧
        ((∃ c rule, a.MayFault w x c rule ∧ (w.node c).op ≠ .unary .sqrt) → v.value = .one) ∧
        ((∀ c rule, a.MayFault w x c rule → (w.node c).op = .unary .sqrt) → v.value = .zero)) := by
  obtain ⟨hlists, houtcome⟩ := outcome_of_analyze hw.wellFormed h
  have hmem := hlists.inputs c hfault.mem x hfault.input
  obtain ⟨hgraph, hhas⟩ := hlists.has x hmem
  have hsettled := houtcome.settled x hmem
  obtain ⟨hconsumer, happly⟩ := (Analysis.mayFault_iff houtcome hgraph hhas).1 hfault
  refine ⟨hsettled.safe c hconsumer rule happly, fun hneeds => ?_⟩
  refine Analysis.actions_of_filledFirst houtcome hgraph hhas (hsettled.filled ?_ ?_)
  · exact List.ne_nil_of_mem (List.mem_filter.2 ⟨hconsumer, by simp [happly]⟩)
  · rintro ⟨p, v, hp, hcontent, hsafe⟩
    refine hneeds ⟨p, v, by rw [Analysis.padding?, if_pos hgraph, hp], hcontent,
      fun c' rule' hfault' => ?_⟩
    exact List.all_eq_true.1 hsafe rule'
      ((Analysis.mem_rules_iff houtcome hgraph hhas).2 ⟨c', hfault'⟩)

/-- A tensor that arrives zero-filled and is read by a square root, a logarithm and a sum. -/
def Workspace.sharedInput : Workspace :=
  (Workspace.empty.addGraph "shared").calls
    [.placeholder 0 "x" .float32 [⟨16, 15⟩], .unary (.unary .sqrt) ⟨0, 0⟩,
      .unary (.unary .log) ⟨0, 0⟩, .reduce (.reduce .sum) ⟨0, 0⟩ false []]

theorem Workspace.built_sharedInput : sharedInput.Built :=
  (Built.addGraph "shared" .empty).calls (by decide)

theorem Engine.exists_analyze_sharedInput :
    ∃ a, default.analyze .sharedInput [⟨0, 1⟩, ⟨0, 2⟩, ⟨0, 3⟩] = .ok a ∧
      a.nodes = [⟨0, 0⟩, ⟨0, 1⟩, ⟨0, 2⟩, ⟨0, 3⟩] ∧
      (a.padding? ⟨0, 0⟩).map PaddingValue.content = some (.exact ⟨.float32, .zero⟩) :=
  Workspace.built_sharedInput.exists_analyze 0 [⟨0, 0⟩, ⟨0, 1⟩, ⟨0, 2⟩, ⟨0, 3⟩] (by decide)
    (by decide +kernel)

/-- The logarithm reads a positive value, and the fill is one although the square root comes
first. -/
theorem Engine.faultSafe_sharedInput :
    ∃ a, default.analyze .sharedInput [⟨0, 1⟩, ⟨0, 2⟩, ⟨0, 3⟩] = .ok a ∧
      a.MayFault .sharedInput ⟨0, 0⟩ ⟨0, 2⟩ .positive ∧ ¬a.HoldsSafe .sharedInput ⟨0, 0⟩ ∧
      (∃ p v, a.run.read ⟨0, 0⟩ (some ⟨0, 2⟩) = some p ∧ p.content = .exact v ∧
        FaultRule.positive.safe v.value = true) ∧
      ∃ v rest, a.actions.filter (·.tensor = ⟨0, 0⟩) = ⟨⟨0, 0⟩, .constant v, []⟩ :: rest ∧
      v.value = .one := by
  obtain ⟨a, ha, hnodes, hpadding⟩ := exists_analyze_sharedInput
  have hfault : a.MayFault .sharedInput ⟨0, 0⟩ ⟨0, 2⟩ .positive :=
    ⟨by simp [hnodes], by decide, .log (by decide), by decide⟩
  have hneeds : ¬a.HoldsSafe .sharedInput ⟨0, 0⟩ := by
    rintro ⟨p, v, hp, hcontent, hsafe⟩
    rw [hp, Option.map_some, hcontent, Option.some.injEq, Content.exact.injEq] at hpadding
    have := hsafe _ _ hfault
    rw [hpadding] at this
    exact absurd this (by decide)
  obtain ⟨hread, hfill⟩ := faultSafe_of_analyze Workspace.built_sharedInput ha hfault
  obtain ⟨v, rest, hactions, -, -, hone, -⟩ := hfill hneeds
  exact ⟨a, ha, hfault, hneeds, hread, v, rest, hactions,
    hone ⟨⟨0, 2⟩, .positive, hfault, by decide⟩⟩

end LanePadding
