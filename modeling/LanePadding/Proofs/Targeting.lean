import LanePadding.Proofs.Isomorphism

/-!
# Who fills are for, and which fills there are

A fill of a tensor that is read once is for all readers, because there is just one.  A fill of a
shared tensor names the readers that need it, and so does not disturb the others.  The one exception
is the fill that makes a shared tensor safe: it comes first, and whoever demanded nothing else reads
it.  `Engine.targeting_of_analyze` says so, and `Engine.constant_needed_of_analyze` that a constant
is written only where readers do not find it anyway.

Both are read off `Run.Closed`, which tells what every setting of a tensor is there for: position by
position, the settings before `k` make the tensor safe, and those from `k` on were demanded.

## What is here

* `Analysis.readers` — how many read a tensor.
* `Run.Closed.targets_eq_nil`, `Run.Closed.lt_of_targets_eq_nil` — which settings are for all
  readers.
* `Run.Closed.needed`, `Run.Closed.targets_eq_nil_of_equal` — constants that are found already are
  not written.
-/

set_option autoImplicit false

namespace LanePadding

/-- The readers of a tensor: the analysed nodes that have it as an input, and its store if it is an
output. -/
def Analysis.readers (a : Analysis) (w : Workspace) (roots : List NodeRef) (x : NodeRef) : Nat :=
  (a.nodes.filter fun c => x ∈ (w.node c).inputs).length + if x ∈ roots then 1 else 0

namespace Run

variable {w : Workspace} {engine : Engine} {nodes outputs : List NodeRef} {r : Run}
  {x : NodeRef} {k : Nat} {q p : PaddingValue}

/-! ## Who settings are for -/

/-- The fill that makes a tensor safe is for all readers. -/
theorem Offers.targets_eq_nil (h : r.Offers w x k q) {i : Nat} {s : Setting} (hi : i < k)
    (hs : (r.entry x).settings[i]? = some s) : s.targets = [] := by
  cases h with
  | own => exact absurd hi (Nat.not_lt_zero i)
  | filled hfirst _ htargets =>
    obtain rfl : i = 0 := Nat.lt_one_iff.1 hi
    obtain rfl := Option.some.inj (hfirst.symm.trans hs)
    exact htargets

/-- Settings of a tensor with a single reader are for all readers. -/
theorem Closed.targets_eq_nil (h : r.Closed w engine nodes outputs x k q)
    (hfew : ¬1 < (r.entry x).readers) {s : Setting} (hs : s ∈ (r.entry x).settings) :
    s.targets = [] := by
  cases h with
  | shared hshape =>
    obtain ⟨i, hi⟩ := List.mem_iff_getElem?.1 hs
    rcases Nat.lt_or_ge i k with hik | hki
    · exact hshape.offers.targets_eq_nil hik hi
    · simpa [Setting.isTargeted, hfew] using hshape.targeted i s hki hi
  | lone _ _ _ _ _ _ _ hsettings =>
    rw [hsettings, List.mem_singleton] at hs
    subst hs
    rfl

/-- On a shared tensor, only the fill that makes it safe is for all readers. -/
theorem Closed.lt_of_targets_eq_nil (h : r.Closed w engine nodes outputs x k q)
    (hreaders : (r.entry x).readers = (r.entry x).consumers.length + if x ∈ outputs then 1 else 0)
    (hshared : 1 < (r.entry x).readers) {i : Nat} {s : Setting}
    (hs : (r.entry x).settings[i]? = some s) (hnil : s.targets = []) : i < k := by
  cases h with
  | shared hshape =>
    by_contra hi
    have htargeted := hshape.targeted i s (Nat.not_lt.1 hi) hs
    simp [Setting.isTargeted, hnil, hshared] at htargeted
  | lone _ _ hroot _ _ _ hconsumers =>
    rw [hconsumers, if_pos hroot] at hreaders
    simp [hreaders] at hshared

/-- A fill that is for the store of a tensor itself was demanded as zeros for an output. -/
theorem Closed.requires_self (h : r.Closed w engine nodes outputs x k q)
    (hirrefl : x ∉ (w.node x).inputs) {s : Setting} (hs : s ∈ (r.entry x).settings)
    (htidy : s.TargetsDemanders) (hself : x ∈ s.targets)
    (hcopies : s.constant? = none → ∀ c ∈ s.demandedBy, x ∈ (w.node c).inputs) :
    x ∈ outputs ∧ engine.outputPadding = true := by
  cases h with
  | shared hshape =>
    have hdemands := htidy.mem_demandedBy hself
    obtain ⟨i, hi⟩ := List.mem_iff_getElem?.1 hs
    have hki : k ≤ i := by
      by_contra hik
      simp [hshape.offers.targets_eq_nil (Nat.not_le.1 hik) hi] at hself
    cases hv : s.constant? with
    | none => exact absurd (hcopies hv x hdemands) hirrefl
    | some v =>
      obtain ⟨u, hneeds | ⟨-, hroot, houtput, -⟩, -⟩ :=
        (hshape.constants i s hki hi v hv).2.2 x hdemands
      · exact absurd hneeds.mem_inputs hirrefl
      · exact ⟨hroot, houtput⟩
  | lone _ _ hroot houtput => exact ⟨hroot, houtput⟩

/-! ## Which constants are written -/

/-- A tensor that holds a constant already is not made safe by it. -/
theorem Offers.isExact_eq_false (h : r.Offers w x k q) (hp : (r.entry x).padding = some p)
    {i : Nat} {s : Setting} {v : Scalar} (hi : i < k) (hs : (r.entry x).settings[i]? = some s)
    (hv : s.constant? = some v) :
    p.isExact v = false := by
  cases h with
  | own => exact absurd hi (Nat.not_lt_zero i)
  | filled hfirst hfill _ _ hneeds hsafe =>
    obtain rfl : i = 0 := Nat.lt_one_iff.1 hi
    obtain rfl := Option.some.inj (hfirst.symm.trans hs)
    obtain rfl := Fill.constant.inj (hfill.symm.trans (Setting.fill_of_constant? hv))
    by_contra hexact
    obtain ⟨u, hcontent, huv⟩ := PaddingValue.exists_of_isExact (by simpa using hexact)
    refine hneeds ⟨p, u, hp, hcontent, ?_⟩
    rw [FaultRule.allSafe_eq_of_equal _ huv]
    exact (FaultRule.exists_of_fill? hsafe).1

/-- **Constants are needed.**  The tensor does not hold the constant itself, or it does, but another
one hides it from all readers but those that the constant is for. -/
theorem Closed.needed (h : r.Closed w engine nodes outputs x k q)
    (hdecides : r.Decides w x (engine.Requires w outputs x)) (hdistinct : (r.entry x).Distinct)
    (hp : (r.entry x).padding = some p) {s : Setting} {v : Scalar} (hs : s ∈ (r.entry x).settings)
    (hv : s.constant? = some v) :
    p.isExact v = false ∨ s.targets ≠ [] ∧
      ∃ s₀ ∈ (r.entry x).settings, ∃ u, s₀.fill = .constant u ∧ s₀.targets = [] ∧
      u.equal v = false := by
  obtain ⟨i, hi⟩ := List.mem_iff_getElem?.1 hs
  cases h with
  | shared hshape =>
    rcases Nat.lt_or_ge i k with hik | hki
    · exact .inl (hshape.offers.isExact_eq_false hp hik hi hv)
    · have hother := (hshape.constants i s hki hi v hv).1
      cases hshape.offers with
      | own hp' =>
        obtain rfl := Option.some.inj (hp'.symm.trans hp)
        exact .inl hother
      | @filled s₀ u hfirst hfill hnil₀ =>
        refine .inr ⟨fun hnil => ?_, s₀, List.mem_of_getElem? hfirst, u, hfill, hnil₀, hother⟩
        have hzero := hshape.eq_of_targets_eq_nil hdecides hdistinct hfirst hi
          (by simp [Setting.constant?, hfill]) (by simp [hv]) hnil₀ hnil
        omega
  | lone _ hoffers _ _ _ hother _ hsettings =>
    rw [hsettings, List.mem_singleton] at hs
    obtain rfl := Fill.constant.inj
      ((Setting.fill_of_constant? hv).symm.trans (congrArg Setting.fill hs))
    cases hoffers with
    | own hp' =>
      obtain rfl := Option.some.inj (hp'.symm.trans hp)
      exact .inl hother

/-- A constant that is written for all readers is not written once more for some of them. -/
theorem Closed.targets_eq_nil_of_equal (h : r.Closed w engine nodes outputs x k q) {s s' : Setting}
    {v v' : Scalar} (hs : s ∈ (r.entry x).settings) (hs' : s' ∈ (r.entry x).settings)
    (hv : s.constant? = some v) (hv' : s'.constant? = some v') (hequal : v.equal v' = true)
    (hnil : s.targets = []) : s'.targets = [] := by
  obtain ⟨i, hi⟩ := List.mem_iff_getElem?.1 hs
  obtain ⟨j, hj⟩ := List.mem_iff_getElem?.1 hs'
  cases h with
  | shared hshape =>
    rcases Nat.lt_or_ge j k with hjk | hkj
    · exact hshape.offers.targets_eq_nil hjk hj
    rcases Nat.lt_or_ge i k with hik | hki
    · -- the fill that makes the tensor safe is what everybody finds
      have hother := (hshape.constants j s' hkj hj v' hv').1
      cases hshape.offers with
      | own => exact absurd hik (Nat.not_lt_zero i)
      | filled hfirst hfill =>
        obtain rfl : i = 0 := Nat.lt_one_iff.1 hik
        obtain rfl := Option.some.inj (hfirst.symm.trans hi)
        obtain rfl := Fill.constant.inj (hfill.symm.trans (Setting.fill_of_constant? hv))
        exact absurd hequal (Bool.eq_false_iff.1 hother)
    · have htargeted := (hshape.targeted j s' hkj hj).trans (hshape.targeted i s hki hi).symm
      simpa [Setting.isTargeted, hnil] using htargeted
  | lone _ _ _ _ _ _ _ hsettings =>
    rw [hsettings, List.mem_singleton] at hs'
    subst hs'
    rfl

end Run

/-! ## A shared vector -/

/-- A vector whose logarithm and sum are taken, and which is negated.  Both the negated vector and
its magnitudes are outputs. -/
def Workspace.magnitudes : Workspace :=
  (Workspace.empty.addGraph "magnitudes").calls
    [.placeholder 0 "x" .float32 [⟨16, 15⟩], .unary (.unary .log) ⟨0, 0⟩,
      .reduce (.reduce .sum) ⟨0, 0⟩ false [0],
      .unary (.unary .neg) ⟨0, 0⟩, .unary (.unary .abs) ⟨0, 3⟩]

theorem Workspace.built_magnitudes : magnitudes.Built :=
  (Built.addGraph "magnitudes" .empty).calls (by decide)

theorem Engine.exists_analyze_magnitudes :
    ∃ a, default.analyze .magnitudes [⟨0, 1⟩, ⟨0, 2⟩, ⟨0, 3⟩, ⟨0, 4⟩] = .ok a ∧
      a.nodes = [⟨0, 0⟩, ⟨0, 1⟩, ⟨0, 2⟩, ⟨0, 3⟩, ⟨0, 4⟩] ∧
      a.actions = [⟨⟨0, 0⟩, .constant ⟨.float32, .one⟩, []⟩,
        ⟨⟨0, 0⟩, .constant ⟨.float32, .zero⟩, [⟨0, 2⟩]⟩,
        ⟨⟨0, 3⟩, .constant ⟨.float32, .zero⟩, [⟨0, 3⟩]⟩,
        ⟨⟨0, 4⟩, .constant ⟨.float32, .zero⟩, []⟩] ∧
      (a.padding? ⟨0, 0⟩).map PaddingValue.content = some (.exact ⟨.float32, .zero⟩) :=
  Workspace.built_magnitudes.exists_analyze 0 [⟨0, 0⟩, ⟨0, 1⟩, ⟨0, 2⟩, ⟨0, 3⟩, ⟨0, 4⟩] (by decide)
    (by decide +kernel)

/-! ## Actions -/

namespace Engine

variable {engine : Engine} {w : Workspace} {roots : List NodeRef} {a : Analysis} {x : NodeRef}

theorem Ended.readers_eq (h : engine.Ended w roots a) (hx : x ∈ a.nodes) :
    (a.run.entry x).readers = a.readers w roots x := by
  obtain ⟨hgraph, hhas⟩ := h.lists.has x hx
  simp only [h.outcome.readers x hgraph hhas, h.outcome.consumers x hgraph hhas, mem_distinct,
    Analysis.readers]

/-- Actions are settings of analysed tensors. -/
theorem Ended.exists_setting (h : engine.Ended w roots a) {b : Action} (hb : b ∈ a.actions) :
    b.tensor ∈ a.nodes ∧ ∃ s ∈ (a.run.entry b.tensor).settings,
      b = ⟨b.tensor, s.fill, s.targets⟩ := by
  have hmem := h.regular.tensor_mem hb
  obtain ⟨s, hs, hbs⟩ := (h.emits hmem).mem_actions_iff.1 ⟨hb, rfl⟩
  exact ⟨hmem, s, hs, hbs.symm⟩

/-- **Fills are for those who need them.**  What is written into a tensor with a single reader is
for all readers.  What is written into a shared tensor is for some of them only, but for a first
constant that makes it safe for consumers that may fault.  A tensor stands among the targets of its
own fill only if it is an output that others read and that has to be stored with zeros. -/
theorem targeting_of_analyze (hw : w.Built) (h : engine.analyze w roots = .ok a) (x : NodeRef) :
    (a.readers w roots x = 1 → ∀ b ∈ a.actions, b.tensor = x → b.targets = []) ∧
    (1 < a.readers w roots x → ∀ (i : Nat) (b : Action),
      (a.actions.filter (·.tensor = x))[i]? = some b →
      b.targets = [] → i = 0 ∧ b.fill.isConstant = true ∧ ∃ c rule, a.MayFault w x c rule) ∧
    ∀ b ∈ a.actions, b.tensor = x → x ∈ b.targets →
      x ∈ roots ∧ engine.outputPadding = true ∧ ∃ c ∈ a.nodes, x ∈ (w.node c).inputs := by
  have hended := ended_of_analyze hw.wellFormed h
  refine ⟨?_, ?_, ?_⟩
  · rintro hone b hb rfl
    obtain ⟨hmem, s, hs, hbs⟩ := hended.exists_setting hb
    obtain ⟨k, q, hclosed⟩ := hended.closed b.tensor hmem
    rw [hbs]
    exact hclosed.targets_eq_nil (by rw [hended.readers_eq hmem, hone]; decide) hs
  · intro hshared i b hb hnil
    have hmem : x ∈ a.nodes := by
      obtain ⟨hb, htensor⟩ := List.mem_filter.1 (List.mem_of_getElem? hb)
      exact of_decide_eq_true htensor ▸ (hended.exists_setting hb).1
    obtain ⟨hgraph, hhas⟩ := hended.lists.has x hmem
    obtain ⟨k, q, hclosed⟩ := hended.closed x hmem
    rw [Analysis.actions, (hended.emits hmem).actions_filter, List.getElem?_map] at hb
    obtain ⟨s, hs, rfl⟩ := Option.map_eq_some_iff.1 hb
    have hik := hclosed.lt_of_targets_eq_nil (hended.outcome.readers x hgraph hhas)
      (by rwa [hended.readers_eq hmem]) hs hnil
    cases hclosed.offers with
    | own => exact absurd hik (Nat.not_lt_zero i)
    | filled hfirst hfill _ hsensitive =>
      obtain rfl : i = 0 := Nat.lt_one_iff.1 hik
      obtain rfl := Option.some.inj (hfirst.symm.trans hs)
      obtain ⟨c, hc⟩ := List.exists_mem_of_ne_nil _ hsensitive
      obtain ⟨hconsumer, happlies⟩ := List.mem_filter.1 hc
      obtain ⟨rule, hrule⟩ := Option.isSome_iff_exists.1 happlies
      exact ⟨rfl, by simp [hfill, Fill.isConstant], c, rule,
        (Analysis.mayFault_iff hended.outcome hgraph hhas).2 ⟨hconsumer, hrule⟩⟩
  · rintro b hb rfl hself
    obtain ⟨hmem, s, hs, hbs⟩ := hended.exists_setting hb
    obtain ⟨hgraph, hhas⟩ := hended.lists.has _ hmem
    obtain ⟨k, q, hclosed⟩ := hended.closed _ hmem
    have hirrefl := hw.wellFormed.not_mem_inputs hhas
    have htidy := hended.outcome.tidy _ s hs
    rw [hbs] at hself
    obtain ⟨hroot, houtput⟩ := hclosed.requires_self hirrefl hs htidy hself fun hconst c hc =>
      ((hended.mem_consumers hmem).1 ((hended.outcome.positions _ hgraph s hs hconst).2.1 c hc)).2
    refine ⟨mem_distinct.1 hroot, houtput, ?_⟩
    rcases hended.demanders _ hmem s hs _ (htidy.mem_demandedBy hself) with hconsumer | ⟨-, hshared⟩
    · exact ⟨_, (hended.mem_consumers hmem).1 hconsumer⟩
    · rw [hended.outcome.readers _ hgraph hhas, if_pos hroot] at hshared
      obtain ⟨c, hc⟩ := List.exists_mem_of_length_pos (Nat.lt_of_succ_lt_succ hshared)
      exact ⟨c, (hended.mem_consumers hmem).1 hc⟩

/-- The vector has three readers, so only the ones for the logarithm are for all of them.  The zeros
of the negated vector are for its store, and those of the magnitudes, which nobody else reads, for
all readers. -/
theorem targeting_magnitudes :
    ∃ a, default.analyze .magnitudes [⟨0, 1⟩, ⟨0, 2⟩, ⟨0, 3⟩, ⟨0, 4⟩] = .ok a ∧
      (a.readers .magnitudes [⟨0, 1⟩, ⟨0, 2⟩, ⟨0, 3⟩, ⟨0, 4⟩] ⟨0, 4⟩ = 1 ∧
        ∃ b ∈ a.actions, b.tensor = ⟨0, 4⟩ ∧ b.targets = []) ∧
      (a.readers .magnitudes [⟨0, 1⟩, ⟨0, 2⟩, ⟨0, 3⟩, ⟨0, 4⟩] ⟨0, 0⟩ = 3 ∧
        ∃ b, (a.actions.filter (·.tensor = ⟨0, 0⟩))[0]? = some b ∧ b.targets = [] ∧
          ∃ c rule, a.MayFault .magnitudes ⟨0, 0⟩ c rule) ∧
      ∃ b ∈ a.actions, b.tensor = ⟨0, 3⟩ ∧ ⟨0, 3⟩ ∈ b.targets ∧
        ∃ c ∈ a.nodes, ⟨0, 3⟩ ∈ (Workspace.magnitudes.node c).inputs := by
  obtain ⟨a, ha, hnodes, hactions, -⟩ := exists_analyze_magnitudes
  have hone : a.readers .magnitudes [⟨0, 1⟩, ⟨0, 2⟩, ⟨0, 3⟩, ⟨0, 4⟩] ⟨0, 4⟩ = 1 := by
    rw [Analysis.readers, hnodes]
    decide
  have hthree : a.readers .magnitudes [⟨0, 1⟩, ⟨0, 2⟩, ⟨0, 3⟩, ⟨0, 4⟩] ⟨0, 0⟩ = 3 := by
    rw [Analysis.readers, hnodes]
    decide
  have hstore : (⟨⟨0, 4⟩, .constant ⟨.float32, .zero⟩, []⟩ : Action) ∈ a.actions := by
    simp [hactions]
  have hself : (⟨⟨0, 3⟩, .constant ⟨.float32, .zero⟩, [⟨0, 3⟩]⟩ : Action) ∈ a.actions := by
    simp [hactions]
  have hfirst : (a.actions.filter (·.tensor = ⟨0, 0⟩))[0]? =
      some ⟨⟨0, 0⟩, .constant ⟨.float32, .one⟩, []⟩ := by
    simp [hactions]
  have hbuilt := Workspace.built_magnitudes
  refine ⟨a, ha, ⟨hone, _, hstore, rfl,
    (targeting_of_analyze hbuilt ha ⟨0, 4⟩).1 hone _ hstore rfl⟩,
    ⟨hthree, _, hfirst, rfl, ?_⟩, ⟨_, hself, rfl, by simp, ?_⟩⟩
  · exact ((targeting_of_analyze hbuilt ha ⟨0, 0⟩).2.1 (by simp [hthree]) 0 _ hfirst rfl).2.2
  · exact ((targeting_of_analyze hbuilt ha ⟨0, 3⟩).2.2 _ hself rfl (by simp)).2.2

/-- **Constants are written only where they are missing.**  A tensor into which a constant is
written does not hold it itself, or it is filled with another one, and the constant is for some
readers only.  What is written for all readers is not written for some of them once more. -/
theorem constant_needed_of_analyze (hw : w.Built) (h : engine.analyze w roots = .ok a) {v : Scalar}
    {targets : List NodeRef} (hb : ⟨x, .constant v, targets⟩ ∈ a.actions) :
    ((∃ p, a.padding? x = some p ∧ p.isExact v = false) ∨
      targets ≠ [] ∧ ∃ u, ⟨x, .constant u, []⟩ ∈ a.actions ∧ u.equal v = false) ∧
    ∀ u targets', ⟨x, .constant u, targets'⟩ ∈ a.actions → u.equal v = true →
      (targets = [] ↔ targets' = []) := by
  have hended := ended_of_analyze hw.wellFormed h
  obtain ⟨r, hsimulates⟩ := exists_simulates hw.wellFormed h
  obtain ⟨hmem, s, hs, hbs⟩ := hended.exists_setting hb
  obtain ⟨hgraph, -⟩ := hended.lists.has x hmem
  obtain ⟨k, q, hclosed⟩ := hended.closed x hmem
  obtain ⟨hfill, rfl⟩ : .constant v = s.fill ∧ targets = s.targets := by simpa using hbs
  have hv : s.constant? = some v := by rw [Setting.constant?, ← hfill]
  refine ⟨?_, ?_⟩
  · obtain ⟨p, hp, -⟩ := (hended.outcome.settled x hmem).holds
    have hdecides := hsimulates.decides hw.wellFormed hended.outcome.toCounts hmem
    refine (hclosed.needed hdecides (hended.regular.distinct x) hp hs hv).imp (fun hother => ?_) ?_
    · exact ⟨p, by rw [Analysis.padding?, if_pos hgraph, hp], hother⟩
    · rintro ⟨hsome, s₀, hs₀, u, hu, hnil, hne⟩
      exact ⟨hsome, u, ((hended.emits hmem).mem_actions_iff.2 ⟨s₀, hs₀, by rw [hu, hnil]⟩).1, hne⟩
  · intro u targets' hb' huv
    obtain ⟨-, s', hs', hbs'⟩ := hended.exists_setting hb'
    obtain ⟨hfill', rfl⟩ : .constant u = s'.fill ∧ targets' = s'.targets := by simpa using hbs'
    have hu : s'.constant? = some u := by rw [Setting.constant?, ← hfill']
    exact ⟨hclosed.targets_eq_nil_of_equal hs hs' hv hu (Scalar.equal_symm huv),
      hclosed.targets_eq_nil_of_equal hs' hs hu hv huv⟩

/-- The vector holds zeros itself.  They are written for the sum nevertheless, since the fill for
the logarithm hides them. -/
theorem constant_needed_magnitudes :
    ∃ a, default.analyze .magnitudes [⟨0, 1⟩, ⟨0, 2⟩, ⟨0, 3⟩, ⟨0, 4⟩] = .ok a ∧
      ⟨⟨0, 0⟩, .constant ⟨.float32, .zero⟩, [⟨0, 2⟩]⟩ ∈ a.actions ∧
      (∃ p, a.padding? ⟨0, 0⟩ = some p ∧ p.isExact ⟨.float32, .zero⟩ = true) ∧
      ∃ u, ⟨⟨0, 0⟩, .constant u, []⟩ ∈ a.actions ∧ u.equal ⟨.float32, .zero⟩ = false := by
  obtain ⟨a, ha, -, hactions, hpadding⟩ := exists_analyze_magnitudes
  have hb : (⟨⟨0, 0⟩, .constant ⟨.float32, .zero⟩, [⟨0, 2⟩]⟩ : Action) ∈ a.actions := by
    simp [hactions]
  obtain ⟨p, hp, hcontent⟩ := Option.map_eq_some_iff.1 hpadding
  have hexact : p.isExact ⟨.float32, .zero⟩ = true := by
    rw [PaddingValue.isExact, hcontent]
    decide
  refine ⟨a, ha, hb, ⟨p, hp, hexact⟩, ?_⟩
  obtain ⟨⟨p', hp', hother⟩ | ⟨-, hhidden⟩, -⟩ :=
    constant_needed_of_analyze Workspace.built_magnitudes ha hb
  · obtain rfl := Option.some.inj (hp.symm.trans hp')
    exact absurd hexact (Bool.eq_false_iff.1 hother)
  · exact hhidden

end Engine
end LanePadding
