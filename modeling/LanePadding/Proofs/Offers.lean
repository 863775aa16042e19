import LanePadding.Proofs.Settings

/-!
# What a tensor offers

Why does a tensor have the settings that it has?  At most one of them makes it safe for its
consumers: it comes first and is for all readers.  So a tensor *offers* the scalar of that setting,
or else its own padding value.  Every other setting was demanded by consumers that need something
else.  A reduction over padding lanes demands its neutral element, unless that is offered, and
pointwise nodes demand copies of lane 0.  Such settings are for all readers only if there is just
one.  `Run.Shape` says so for one tensor.

Therefore whoever does not need a constant of its own reads what is offered (`Run.Shape.read_eq`),
and what is offered depends on the tensor and on its consumers, but not on the order in which they
came.

## What is here

* `Engine.Needs` — a reduction needs its neutral element in the padding lanes of its operand.
* `Run.Offers`, `Run.Shape` — the settings of a simulated tensor and what they are for.
* `Run.Shape.grow` — a consumer is noted, provided it has a reason to be there.
* `Run.Shape.step`, `Run.Stepped.exists_shape`, `Run.exists_shape_of_simulateFrom` — one step and a
  whole run.
-/

set_option autoImplicit false

namespace LanePadding

/-! ## Needs -/

/-- The consumer `c` is a reduction of `x` over an axis with padding lanes, and the scalar is its
neutral element. -/
def Engine.Needs (engine : Engine) (w : Workspace) (x c : NodeRef) (v : Scalar) : Prop :=
  ∃ fn axes keep, (w.node c).op = .reduce fn axes keep ∧ (w.node c).operands = [.node x] ∧
    ((w.node x).paddedAxes.filter (· ∈ axes)).isEmpty = false ∧
    engine.platform.neutral (.reduce fn) (w.node x).dtype = .ok v

namespace Engine.Needs

variable {engine : Engine} {w : Workspace} {x c : NodeRef} {v v' : Scalar}

theorem mem_inputs (h : engine.Needs w x c v) : x ∈ (w.node c).inputs := by
  obtain ⟨fn, axes, keep, -, hoperands, -⟩ := h
  simp [Node.inputs, hoperands, Operand.node?]

theorem isPointwise_eq_false (h : engine.Needs w x c v) : (w.node c).op.isPointwise = false := by
  obtain ⟨fn, axes, keep, hop, -⟩ := h
  rw [hop]
  rfl

theorem applying?_eq_none (h : engine.Needs w x c v) (y : NodeRef) :
    FaultRule.applying? w y c = none := by
  obtain ⟨fn, axes, keep, hop, -⟩ := h
  exact Run.applying?_reduce hop y

/-- A reduction needs one scalar. -/
theorem unique (h : engine.Needs w x c v) (h' : engine.Needs w x c v') : v = v' := by
  obtain ⟨fn, axes, keep, hop, -, -, hv⟩ := h
  obtain ⟨fn', axes', keep', hop', -, -, hv'⟩ := h'
  obtain ⟨rfl, -, -⟩ : fn = fn' ∧ axes = axes' ∧ keep = keep' := by simpa [hop] using hop'
  exact Except.ok.inj (hv.symm.trans hv')

end Engine.Needs

theorem PaddingValue.isExact_congr (p : PaddingValue) {u v : Scalar} (h : u.equal v = true) :
    p.isExact u = p.isExact v := by
  rw [isExact, isExact]
  cases p.content with
  | exact a =>
    refine Bool.eq_iff_iff.2 ⟨fun ha => ?_, fun ha => ?_⟩
    · exact Scalar.equal_trans ha h
    · exact Scalar.equal_trans ha (Scalar.equal_symm h)
  | _ => rfl

theorem Setting.fill_of_constant? {s : Setting} {v : Scalar} (h : s.constant? = some v) :
    s.fill = .constant v := by
  rw [constant?] at h
  cases hfill : s.fill <;> simp_all

namespace Run

/-! ## Settings and what they are for -/

section

variable (w : Workspace) (r : Run) (x : NodeRef)

/-- The first `k` settings make the tensor safe for its consumers, and its readers find `q` unless
they demanded something else. -/
inductive Offers : Nat → PaddingValue → Prop
  | own {p : PaddingValue} (hp : (r.entry x).padding = some p) (horigin : p.origin = some x)
      (hsafe : r.sensitive w x = [] ∨ r.HoldsSafe w x) : Offers 0 ⟨p.content, some x, []⟩
  | filled {s : Setting} {v : Scalar} (hs : (r.entry x).settings[0]? = some s)
      (hfill : s.fill = .constant v) (htargets : s.targets = []) (hsensitive : r.sensitive w x ≠ [])
      (hneeds : ¬r.HoldsSafe w x)
      (hv : FaultRule.fill? (r.rules w x) (w.node x).dtype (r.rules w x) = .ok (some v)) :
      Offers 1 ⟨.exact v, some x, []⟩

/-- **The settings of a tensor**, where `needs` tells which scalars its consumers need.  The first
`k` of them make it safe, and the others are there for consumers that need something else. -/
structure Shape (needs : NodeRef → Scalar → Prop) (k : Nat) (q : PaddingValue) : Prop where
  offers : r.Offers w x k q
  /-- Who relies on the fill that makes the tensor safe does not need another scalar. -/
  relied : ∀ (i : Nat) (s : Setting), i < k → (r.entry x).settings[i]? = some s →
    ∀ c ∈ s.demandedBy, ∀ u, needs c u → q.isExact u = true
  targeted : ∀ (i : Nat) (s : Setting), k ≤ i → (r.entry x).settings[i]? = some s →
    s.isTargeted = decide (1 < (r.entry x).readers)
  constants : ∀ (i : Nat) (s : Setting), k ≤ i → (r.entry x).settings[i]? = some s →
    ∀ v, s.constant? = some v → q.isExact v = false ∧ s.demandedBy ≠ [] ∧
    ∀ c ∈ s.demandedBy, ∃ u, needs c u ∧ u.equal v = true
  copies : ∀ (i : Nat) (s : Setting), k ≤ i → (r.entry x).settings[i]? = some s →
    s.constant? = none → ∀ c ∈ s.demandedBy, (w.node c).op.isPointwise = true

end

variable {w : Workspace} {engine : Engine} {g : Nat} {roots nodes outputs done : List NodeRef}
  {needs : NodeRef → Scalar → Prop} {x n : NodeRef} {k : Nat} {q : PaddingValue} {r r₁ r' : Run}

theorem Offers.le_one (h : r.Offers w x k q) : k ≤ 1 := by
  cases h <;> omega

theorem Offers.congr (h : r.Offers w x k q) (hentry : r'.entry x = r.entry x) :
    r'.Offers w x k q := by
  have hrules : r'.rules w x = r.rules w x := by rw [rules, rules, hentry]
  have hsensitive : r'.sensitive w x = r.sensitive w x := by rw [sensitive, sensitive, hentry]
  have hholds : r'.HoldsSafe w x ↔ r.HoldsSafe w x := by rw [HoldsSafe, HoldsSafe, hentry, hrules]
  cases h with
  | own hp horigin hsafe => exact .own (hentry ▸ hp) horigin (by rwa [hsensitive, hholds])
  | filled hs hfill htargets hsome hneeds hv =>
    exact .filled (hentry ▸ hs) hfill htargets (hsensitive ▸ hsome) (by rwa [hholds]) (hrules ▸ hv)

theorem Shape.congr (h : r.Shape w x needs k q) (hentry : r'.entry x = r.entry x) :
    r'.Shape w x needs k q where
  offers := h.offers.congr hentry
  relied := hentry ▸ h.relied
  targeted := hentry ▸ h.targeted
  constants := hentry ▸ h.constants
  copies := hentry ▸ h.copies

/-! ## Readings -/

/-- Settings that provide no constant can be left out. -/
theorem fillFor_append_of_forall {l₀ l : List Setting} {c : Option NodeRef}
    (h : ∀ s ∈ l, s.demanded? c = none ∧ s.general? = none) :
    fillFor (l₀ ++ l) c = fillFor l₀ c := by
  have hnone : ∀ g : Setting → Option Scalar, (∀ s ∈ l, g s = none) →
      (l₀ ++ l).reverse.findSome? g = l₀.reverse.findSome? g := by
    intro g hg
    rw [List.reverse_append, List.findSome?_append, List.findSome?_eq_none_iff.2 fun s hs =>
      hg s (by simpa using hs), Option.none_or]
  rw [fillFor, fillFor, hnone _ fun s hs => (h s hs).1, hnone _ fun s hs => (h s hs).2]

/-- **Whoever demanded no constant reads what is offered**, provided that all constants but the
first are for others. -/
theorem Shape.read_eq (h : r.Shape w x needs k q) {c : Option NodeRef}
    (hothers : ∀ (i : Nat) (s : Setting), k ≤ i → (r.entry x).settings[i]? = some s →
      s.constant? ≠ none → ¬s.IsDemandedBy c ∧ s.isTargeted = true) :
    (r.read x c).map PaddingValue.clone = some q := by
  have hunseen : ∀ s ∈ (r.entry x).settings.drop k, s.demanded? c = none ∧ s.general? = none := by
    intro s hs
    obtain ⟨i, hi⟩ := List.mem_iff_getElem?.1 hs
    rw [List.getElem?_drop] at hi
    by_cases hconst : s.constant? = none
    · simp [Setting.demanded?, Setting.general?, hconst]
    · obtain ⟨hdemanded, htargeted⟩ := hothers (k + i) s (Nat.le_add_right ..) hi hconst
      simp [Setting.demanded?, Setting.general?, hdemanded, htargeted]
  have hfill : fillFor (r.entry x).settings c = fillFor ((r.entry x).settings.take k) c := by
    conv_lhs => rw [← List.take_append_drop k (r.entry x).settings]
    exact fillFor_append_of_forall hunseen
  rw [read, Entry.read_eq, hfill]
  cases h.offers with
  | own hp horigin hsafe =>
    rw [List.take_zero]
    change Option.map _ (r.entry x).padding = _
    rw [hp, Option.map_some, PaddingValue.clone, horigin]
  | @filled s v hs hconst htargets =>
    have htake : (r.entry x).settings.take 1 = [s] := by
      cases hsettings : (r.entry x).settings with
      | nil => simp [hsettings] at hs
      | cons a l => simpa [hsettings] using hs
    rw [htake, RunM.fillFor_single hconst htargets]
    rfl

/-- Constants that others demanded are not for all readers, since there are several. -/
theorem Shape.isTargeted_of_not_mem (h : r.Shape w x needs k q)
    (hr : Coherent w g nodes outputs done r) (hx : x.graph = g) (hhas : w.Has x) {c : NodeRef}
    (hc : c ∈ (r.entry x).consumers) {i : Nat} {s : Setting} (hi : k ≤ i)
    (hs : (r.entry x).settings[i]? = some s) (hconst : s.constant? ≠ none)
    (hnot : c ∉ s.demandedBy) :
    s.isTargeted = true := by
  obtain ⟨v, hv⟩ := Option.ne_none_iff_exists'.1 hconst
  obtain ⟨-, hsome, -⟩ := h.constants i s hi hs v hv
  obtain ⟨c', hc'⟩ := List.exists_mem_of_ne_nil _ hsome
  have hconsumer := (hr.demanders x hx s (List.mem_of_getElem? hs) c' hc').1
  rw [h.targeted i s hi hs, decide_eq_true_iff]
  exact hr.one_lt_readers hx hhas hc hconsumer fun hcc' => hnot (hcc' ▸ hc')

/-- A consumer that demanded no constant of its own reads what is offered. -/
theorem Shape.read_eq_of_consumer (h : r.Shape w x needs k q)
    (hr : Coherent w g nodes outputs done r) (hx : x.graph = g) (hhas : w.Has x) {c : NodeRef}
    (hc : c ∈ (r.entry x).consumers)
    (hnot : ∀ (i : Nat) (s : Setting), k ≤ i → (r.entry x).settings[i]? = some s →
      s.constant? ≠ none → c ∉ s.demandedBy) :
      (r.read x (some c)).map PaddingValue.clone = some q := by
  refine h.read_eq fun i s hi hs hconst => ⟨?_, ?_⟩
  · rintro ⟨c₀, hc₀, hmem⟩
    exact hnot i s hi hs hconst (Option.some.inj hc₀ ▸ hmem)
  · exact h.isTargeted_of_not_mem hr hx hhas hc hi hs hconst (hnot i s hi hs hconst)

/-! ## Settings told apart by who needs them -/

/-- What is asked of `needs` and of the readers of `x`: everybody needs at most one scalar, those
who may fault need none, and a single reader that demands something is a consumer. -/
structure Decides (w : Workspace) (r : Run) (x : NodeRef) (needs : NodeRef → Scalar → Prop) :
    Prop where
  unique : ∀ c u u', needs c u → needs c u' → u = u'
  sensitive : ∀ c ∈ r.sensitive w x, ∀ u, ¬needs c u
  single : ¬1 < (r.entry x).readers → ∀ s ∈ (r.entry x).settings,
    ∀ c ∈ s.demandedBy, c ∈ (r.entry x).consumers
  shared : ∀ c ∈ (r.entry x).consumers, ∀ c' ∈ (r.entry x).consumers,
    c ≠ c' → 1 < (r.entry x).readers

/-- Nobody demands two constants. -/
theorem Shape.eq_of_mem_demandedBy (h : r.Shape w x needs k q) (hneeds : r.Decides w x needs)
    (hdistinct : (r.entry x).Distinct) {i j : Nat} {s s' : Setting}
    (hs : (r.entry x).settings[i]? = some s) (hs' : (r.entry x).settings[j]? = some s')
    (hconst : s.constant? ≠ none) (hconst' : s'.constant? ≠ none) {c : NodeRef}
    (hc : c ∈ s.demandedBy) (hc' : c ∈ s'.demandedBy) : i = j := by
  -- a constant that the consumer relies on is not one that it demanded instead
  have hapart : ∀ {i j : Nat} {s s' : Setting}, i < k → k ≤ j → (r.entry x).settings[i]? = some s →
      (r.entry x).settings[j]? = some s' → s'.constant? ≠ none → c ∈ s.demandedBy →
      c ∉ s'.demandedBy := by
    intro i j s s' hi hj hs hs' hconst' hc hc'
    obtain ⟨v, hv⟩ := Option.ne_none_iff_exists'.1 hconst'
    obtain ⟨hother, -, hdemanders⟩ := h.constants j s' hj hs' v hv
    obtain ⟨u, hu, huv⟩ := hdemanders c hc'
    rw [← q.isExact_congr huv, h.relied i s hi hs c hc u hu] at hother
    exact absurd hother (by simp)
  rcases Nat.lt_or_ge i k with hi | hi <;> rcases Nat.lt_or_ge j k with hj | hj
  · have := h.offers.le_one
    omega
  · exact absurd hc' (hapart hi hj hs hs' hconst' hc)
  · exact absurd hc (hapart hj hi hs' hs hconst hc')
  · obtain ⟨v, hv⟩ := Option.ne_none_iff_exists'.1 hconst
    obtain ⟨v', hv'⟩ := Option.ne_none_iff_exists'.1 hconst'
    obtain ⟨u, hu, huv⟩ := (h.constants i s hi hs v hv).2.2 c hc
    obtain ⟨u', hu', huv'⟩ := (h.constants j s' hj hs' v' hv').2.2 c hc'
    obtain rfl := hneeds.unique c u u' hu hu'
    refine hdistinct.eq_of_equal hs hs' ?_ (by rw [h.targeted i s hi hs, h.targeted j s' hj hs'])
    rw [Setting.fill_of_constant? hv, Setting.fill_of_constant? hv']
    exact Scalar.equal_trans (Scalar.equal_symm huv) huv'

/-- At most one constant is for all readers. -/
theorem Shape.eq_of_targets_eq_nil (h : r.Shape w x needs k q) (hneeds : r.Decides w x needs)
    (hdistinct : (r.entry x).Distinct) {i j : Nat} {s s' : Setting}
    (hs : (r.entry x).settings[i]? = some s) (hs' : (r.entry x).settings[j]? = some s')
    (hconst : s.constant? ≠ none) (hconst' : s'.constant? ≠ none) (hnil : s.targets = [])
    (hnil' : s'.targets = []) : i = j := by
  -- a constant for all readers that was demanded has one consumer, which needs it
  have hdemander : ∀ {j : Nat} {s' : Setting}, k ≤ j → (r.entry x).settings[j]? = some s' →
      s'.constant? ≠ none → s'.targets = [] → ∃ c ∈ s'.demandedBy, c ∈ (r.entry x).consumers ∧
      (∃ u, needs c u) ∧
        ∀ c' ∈ (r.entry x).consumers, c = c' := by
    intro j s' hj hs' hconst' hnil'
    have hfew : ¬1 < (r.entry x).readers := by
      have htargeted := h.targeted j s' hj hs'
      simpa [Setting.isTargeted, hnil'] using htargeted
    obtain ⟨v, hv⟩ := Option.ne_none_iff_exists'.1 hconst'
    obtain ⟨-, hsome, hdemanders⟩ := h.constants j s' hj hs' v hv
    obtain ⟨c, hc⟩ := List.exists_mem_of_ne_nil _ hsome
    obtain ⟨u, hu, -⟩ := hdemanders c hc
    have hmem := hneeds.single hfew s' (List.mem_of_getElem? hs') c hc
    refine ⟨c, hc, hmem, ⟨u, hu⟩, fun c' hc' => ?_⟩
    by_contra hne
    exact hfew (hneeds.shared c hmem c' hc' hne)
  have hapart : ∀ {i j : Nat} {s' : Setting}, i < k → k ≤ j → (r.entry x).settings[j]? = some s' →
      s'.constant? ≠ none → s'.targets ≠ [] := by
    intro i j s' hi hj hs' hconst' hnil'
    obtain ⟨c, -, -, ⟨u, hu⟩, hall⟩ := hdemander hj hs' hconst' hnil'
    cases h.offers with
    | own => exact absurd hi (Nat.not_lt_zero i)
    | filled _ _ _ hsensitive =>
      obtain ⟨c₀, hc₀⟩ := List.exists_mem_of_ne_nil _ hsensitive
      obtain rfl := hall c₀ (List.mem_filter.1 hc₀).1
      exact hneeds.sensitive c hc₀ u hu
  rcases Nat.lt_or_ge i k with hi | hi <;> rcases Nat.lt_or_ge j k with hj | hj
  · have := h.offers.le_one
    omega
  · exact absurd hnil' (hapart hi hj hs' hconst')
  · exact absurd hnil (hapart hj hi hs hconst)
  · obtain ⟨c, hc, -, -, hall⟩ := hdemander hi hs hconst hnil
    obtain ⟨c', hc', hmem, -⟩ := hdemander hj hs' hconst' hnil'
    obtain rfl := hall c' hmem
    exact h.eq_of_mem_demandedBy hneeds hdistinct hs hs' hconst hconst' hc hc'

/-! ## One step -/

/-- Relying twice is relying once. -/
theorem addTarget_addTarget (p : PaddingValue) (c : Option NodeRef) :
    (p.addTarget c).addTarget c = p.addTarget c := by
  cases c with
  | none => rfl
  | some c =>
    have hmem : c ∈ insertLast p.targets c := by
      rw [insertLast]
      split <;> simp [*]
    simp only [PaddingValue.addTarget, PaddingValue.mk.injEq, true_and]
    conv_lhs => rw [insertLast, if_pos hmem]

/-- All changes on behalf of one consumer come to one. -/
theorem Grown.grows {c : Option NodeRef} {T : NodeRef → Prop} (h : Grown w g c T r r')
    (x : NodeRef) :
    (r.entry x).Grows c (decide (1 < (r.entry x).readers)) (r'.entry x) where
  consumers := h.consumers x
  readers := h.readers x
  padding := by
    have hnotes := h.notes
    clear h
    induction hnotes with
    | refl => exact .inl rfl
    | tail _ hnote ih =>
      obtain ⟨y, -, -, hupdate⟩ := hnote
      refine hupdate.forall_entry
        (P := fun e e' => (e.padding = _ ∨ e.padding = _) → (e'.padding = _ ∨ e'.padding = _))
        (fun hold => ?_) (fun _ he => he) x ih
      rcases hupdate.grows.padding with hsame | hnoted
      · rwa [hsame]
      · rw [hnoted]
        right
        rcases hold with hold | hold
        · rw [hold]
        · rw [hold, Option.map_map]
          congr 1
          funext p
          exact addTarget_addTarget p c
  settings := h.settings x

theorem Offers.grow (h : r.Offers w x k q) {c : Option NodeRef} {t : Bool}
    (hgrows : (r.entry x).Grows c t (r'.entry x)) : r'.Offers w x k q := by
  have hconsumers := hgrows.consumers
  have hpadding := hgrows.map_clone
  have hrules : r'.rules w x = r.rules w x := by rw [rules, rules, hconsumers]
  have hsensitive : r'.sensitive w x = r.sensitive w x := by rw [sensitive, sensitive, hconsumers]
  cases h with
  | @own p hp horigin hsafe =>
    obtain ⟨p', hp', hcontent, horigin'⟩ := exists_of_map_clone hpadding hp
    rw [← hcontent]
    refine .own hp' (horigin'.trans horigin) ?_
    rw [hsensitive]
    exact hsafe.imp_right fun hholds => hholds.congr hconsumers hpadding
  | filled hs hfill htargets hsome hneeds hv =>
    obtain ⟨s', hs', hjoined⟩ := hgrows.settings.getElem?_joined hs
    refine .filled hs' (hjoined.fill_eq.trans hfill) (hjoined.targets_eq_nil_iff.2 htargets)
      (hsensitive ▸ hsome) (fun hholds => hneeds ?_) (hrules ▸ hv)
    exact hholds.congr hconsumers.symm hpadding.symm

/-- **A consumer is noted**, provided it has a reason to be there: it finds what it needs in what is
offered, or it demands something else. -/
theorem Shape.grow (h : r.Shape w x needs k q)
    (hgrows : (r.entry x).Grows (some n) (decide (1 < (r.entry x).readers)) (r'.entry x))
    (hrelied : ∀ (i : Nat) (s' : Setting), i < k → (r'.entry x).settings[i]? = some s' →
      n ∈ s'.demandedBy → ∀ u, needs n u → q.isExact u = true)
    (hconstants : ∀ (i : Nat) (s' : Setting), k ≤ i → (r'.entry x).settings[i]? = some s' →
      n ∈ s'.demandedBy → ∀ v, s'.constant? = some v → q.isExact v = false ∧ ∃ u, needs n u ∧
      u.equal v = true)
    (hcopies : ∀ (i : Nat) (s' : Setting), k ≤ i → (r'.entry x).settings[i]? = some s' →
      n ∈ s'.demandedBy → s'.constant? = none → (w.node n).op.isPointwise = true) :
    r'.Shape w x needs k q := by
  have hgrow := hgrows.settings
  constructor
  case offers => exact h.offers.grow hgrows
  case relied =>
    intro i s' hi hs' c hc u hu
    rcases hgrow.getElem?_cases hs' with ⟨s, hs, hjoined⟩ | ⟨-, fill, rfl⟩
    · rcases hjoined.mem_demandedBy hc with hold | hnew
      · exact h.relied i s hi hs c hold u hu
      · obtain rfl := Option.some.inj hnew
        exact hrelied i s' hi hs' hc u hu
    · obtain rfl := Option.some.inj (Entry.mem_demandedBy_newSetting.1 hc)
      exact hrelied i _ hi hs' hc u hu
  case targeted =>
    intro i s' hi hs'
    rw [hgrows.readers]
    rcases hgrow.getElem?_cases hs' with ⟨s, hs, hjoined⟩ | ⟨-, fill, rfl⟩
    · rw [hjoined.isTargeted_eq, h.targeted i s hi hs]
    · exact Entry.isTargeted_newSetting (by simp) fill
  case constants =>
    intro i s' hi hs' v hv
    rcases hgrow.getElem?_cases hs' with ⟨s, hs, hjoined⟩ | ⟨-, fill, rfl⟩
    · obtain ⟨hoffered, hsome, hdemanders⟩ := h.constants i s hi hs v (hjoined.constant?_eq ▸ hv)
      refine ⟨hoffered, ?_, fun c hc => ?_⟩
      · obtain ⟨c, hc⟩ := List.exists_mem_of_ne_nil _ hsome
        exact List.ne_nil_of_mem (hjoined.mem_demandedBy_of_mem hc)
      · rcases hjoined.mem_demandedBy hc with hold | hnew
        · exact hdemanders c hold
        · obtain rfl := Option.some.inj hnew
          exact (hconstants i s' hi hs' hc v hv).2
    · have hn : n ∈ (Entry.newSetting (some n) fill
          (decide (1 < (r.entry x).readers))).demandedBy :=
        Entry.mem_demandedBy_newSetting.2 rfl
      obtain ⟨hoffered, hneeds⟩ := hconstants i _ hi hs' hn v hv
      refine ⟨hoffered, List.ne_nil_of_mem hn, fun c hc => ?_⟩
      obtain rfl := Option.some.inj (Entry.mem_demandedBy_newSetting.1 hc)
      exact hneeds
  case copies =>
    intro i s' hi hs' hconst c hc
    rcases hgrow.getElem?_cases hs' with ⟨s, hs, hjoined⟩ | ⟨-, fill, rfl⟩
    · rcases hjoined.mem_demandedBy hc with hold | hnew
      · exact h.copies i s hi hs (hjoined.constant?_eq ▸ hconst) c hold
      · obtain rfl := Option.some.inj hnew
        exact hcopies i s' hi hs' hc hconst
    · obtain rfl := Option.some.inj (Entry.mem_demandedBy_newSetting.1 hc)
      exact hcopies i _ hi hs' hc hconst

end Run

/-- A consumer that demanded nothing before is among those who demand the fill that was written for
it. -/
theorem Entry.equal_of_write {e : Entry} {c : NodeRef} {fill : Fill} {t : Bool}
    (hfresh : ∀ s ∈ e.settings, c ∉ s.demandedBy) {s' : Setting}
    (hs' : s' ∈ (e.write (some c) fill t).settings) (hc : c ∈ s'.demandedBy) :
    s'.fill.equal fill = true := by
  rw [write] at hs'
  split at hs'
  · rename_i i hi
    obtain ⟨s, hs, hfill, -⟩ := exists_of_settingOf? hi
    rcases mem_modify hs' with hold | ⟨s₀, hs₀, rfl⟩
    · exact absurd hc (hfresh s' hold)
    · obtain rfl : s = s₀ := Option.some.inj (hs.symm.trans hs₀)
      rwa [Setting.fill_addDemand]
  · rcases List.mem_append.1 hs' with hold | hnew
    · exact absurd hc (hfresh s' hold)
    · obtain rfl := List.mem_singleton.1 hnew
      rw [fill_newSetting]
      exact Fill.equal_refl fill

namespace Run

variable {w : Workspace} {engine : Engine} {g : Nat} {roots nodes outputs done : List NodeRef}
  {needs : NodeRef → Scalar → Prop} {x n : NodeRef} {k : Nat} {q : PaddingValue} {r r₁ r' : Run}

/-- A consumer that needs a scalar which is not offered demands it. -/
theorem Shape.write (h : r.Shape w x needs k q)
    (hfresh : ∀ s ∈ (r.entry x).settings, n ∉ s.demandedBy) {v : Scalar} (hneeds : needs n v)
    (hother : q.isExact v = false) (hentry : r'.entry x =
      (r.entry x).write (some n) (.constant v) (decide (1 < (r.entry x).readers))) :
    r'.Shape w x needs k q := by
  have hgrows : (r.entry x).Grows (some n) (decide (1 < (r.entry x).readers)) (r'.entry x) :=
    hentry ▸ Entry.grows_write ..
  have hequal : ∀ {i : Nat} {s' : Setting}, (r'.entry x).settings[i]? = some s' →
      n ∈ s'.demandedBy → ∃ u, s'.constant? = some u ∧ u.equal v = true := by
    intro i s' hs' hn
    rw [hentry] at hs'
    exact Entry.exists_constant?_of_equal
      (Entry.equal_of_write hfresh (List.mem_of_getElem? hs') hn)
  refine h.grow hgrows (fun i s' hi hs' hn u hu => ?_) (fun i s' _ hs' hn u hu => ?_)
    fun i s' _ hs' hn hconst => ?_
  · -- the fill that makes the tensor safe is offered
    obtain ⟨a, ha, hav⟩ := hequal hs' hn
    cases h.offers.grow hgrows with
    | own => exact absurd hi (Nat.not_lt_zero i)
    | filled hs hfill =>
      obtain rfl : i = 0 := Nat.lt_one_iff.1 hi
      obtain rfl := Option.some.inj (hs.symm.trans hs')
      rw [Setting.constant?, hfill, Option.some.injEq] at ha
      subst ha
      exact absurd (hav.symm.trans hother) (by simp)
  · obtain ⟨a, ha, hav⟩ := hequal hs' hn
    obtain rfl := Option.some.inj (ha.symm.trans hu)
    exact ⟨(q.isExact_congr hav).trans hother, v, hneeds, Scalar.equal_symm hav⟩
  · obtain ⟨a, ha, -⟩ := hequal hs' hn
    exact absurd (ha.symm.trans hconst) (by simp)

/-- A consumer that finds what it needs in what is offered relies on it. -/
theorem Shape.rely (h : r.Shape w x needs k q) (hr : Coherent w g nodes outputs done r)
    (hx : x.graph = g) (hhas : w.Has x) (hc : n ∈ (r.entry x).consumers)
    (hfresh : ∀ s ∈ (r.entry x).settings, n ∉ s.demandedBy)
    (hneeds : ∀ u, needs n u → q.isExact u = true)
    (hentry : r'.entry x = (r.entry x).rely (some n)) :
    r'.Shape w x needs k q := by
  refine h.grow (hentry ▸ Entry.grows_rely ..) (fun _ _ _ _ _ => hneeds)
    (fun i s' hi hs' hn v hv => ?_) fun i s' _ hs' hn hconst => ?_
  · rw [hentry] at hs'
    obtain ⟨s, hs, hwhy⟩ := Entry.joins_rely hs' hn
    have hnot := hfresh s (List.mem_of_getElem? hs)
    have hnil : s.isTargeted = false := by simp [Setting.isTargeted, hwhy.resolve_left hnot]
    have hconst : s.constant? ≠ none := by
      rcases (Entry.grows_rely (r.entry x) (some n) true).settings.getElem?_cases hs' with
        ⟨s₀, hs₀, hjoined⟩ | ⟨hle, -⟩
      · obtain rfl : s = s₀ := Option.some.inj (hs.symm.trans hs₀)
        simp [← hjoined.constant?_eq, hv]
      · exact absurd (List.getElem?_eq_some_iff.1 hs).1 (Nat.not_lt.2 hle)
    rw [h.isTargeted_of_not_mem hr hx hhas hc hi hs hconst hnot] at hnil
    exact absurd hnil (by simp)
  · rw [hentry] at hs'
    exact absurd hn (hfresh s' (mem_of_rely (List.mem_of_getElem? hs') hconst))

/-- A pointwise node looks at the tensor. -/
theorem Shape.viewed (h : r.Shape w x (engine.Needs w x) k q)
    (hr : Coherent w g nodes outputs done r) (hx : x.graph = g) (hhas : w.Has x)
    (hc : n ∈ (r.entry x).consumers) (hpoint : (w.node n).op.isPointwise = true)
    {viewed resolved : List Operand} (hviewed : Viewed w g n viewed resolved r r') :
    r'.Shape w x (engine.Needs w x) k q := by
  have hnone : ∀ {y u}, ¬engine.Needs w y n u := fun hneeds => by
    rw [hneeds.isPointwise_eq_false] at hpoint
    exact absurd hpoint (by simp)
  refine h.grow (hviewed.grown.grows x) (fun _ _ _ _ _ _ hu => absurd hu hnone)
    (fun i s' hi hs' hn v hv => ?_) fun _ _ _ _ _ _ => hpoint
  obtain ⟨s, hs, hwhy⟩ := hviewed.joins x i s' hs' (by simp [hv]) hn
  have hjoined : s.Joined (some n) s' := by
    rcases (hviewed.grown.settings x).getElem?_cases hs' with ⟨s₀, hs₀, hjoined⟩ | ⟨hle, -⟩
    · exact Option.some.inj (hs.symm.trans hs₀) ▸ hjoined
    · exact absurd (List.getElem?_eq_some_iff.1 hs).1 (Nat.not_lt.2 hle)
  have hsv : s.constant? = some v := hjoined.constant?_eq ▸ hv
  have hnot : n ∉ s.demandedBy := fun hmem => by
    obtain ⟨u, hu, -⟩ := (h.constants i s hi hs v hsv).2.2 n hmem
    exact hnone hu
  have hnil : s.isTargeted = false := by simp [Setting.isTargeted, hwhy.resolve_left hnot]
  rw [h.isTargeted_of_not_mem hr hx hhas hc hi hs (by simp [hsv]) hnot] at hnil
  exact absurd hnil (by simp)

/-- A reduction relies on what is offered, or demands its neutral element. -/
theorem Shape.reduced (h : r.Shape w x (engine.Needs w x) k q)
    (hr : Coherent w g nodes outputs done r) (hn : Next w g nodes done n)
    (hinput : x ∈ (w.node n).inputs) (hpoint : ¬(w.node n).op.isPointwise = true)
    {content : Content} (hstep : Stepped w engine g n r r₁ content r') :
    r₁.Shape w x (engine.Needs w x) k q := by
  obtain ⟨hgraph, hhas, -⟩ := hn.doneHas x (hn.inputs x hinput)
  have hc : n ∈ (r.entry x).consumers := (hr.mem_consumers hgraph hhas).2 ⟨hn.mem, hinput⟩
  obtain ⟨fn, axes, keep, hop, hx'⟩ := hn.formed.exists_reduce hinput hpoint
  cases hreal : ((w.node x).paddedAxes.filter (· ∈ axes)).isEmpty with
  | true => exact h.congr (by rw [hstep.silent ⟨fn, axes, keep, x, hop, hx', hreal⟩])
  | false =>
    have hfresh : ∀ s ∈ (r.entry x).settings, n ∉ s.demandedBy :=
      fun s hs => hr.fresh hgraph hs hn.fresh (.inr (applying?_reduce hop x))
    obtain ⟨v, hv, -, current, hcurrent, hr₁⟩ := hstep.neutral fn axes keep x hop hx' hreal
    have hneeds : engine.Needs w x n v := ⟨fn, axes, keep, hop, hx', hreal, hv⟩
    have hoffered := h.read_eq_of_consumer hr hgraph hhas hc fun i s _ hs _ =>
      hfresh s (List.mem_of_getElem? hs)
    rw [hcurrent, Option.map_some, Option.some.injEq] at hoffered
    have hsize := (hn.knows hr x hinput).2
    split at hr₁
    · rename_i hexact
      refine h.rely hr hgraph hhas hc hfresh (fun u hu => ?_) ?_
      · rw [hu.unique hneeds, ← hoffered]
        exact hexact
      · rw [hr₁, entry_modifyEntry hsize, if_pos rfl]
    · rename_i hother
      refine h.write hfresh hneeds ?_ ?_
      · rw [← hoffered]
        exact Bool.eq_false_iff.2 hother
      · rw [hr₁, entry_write hsize, if_pos rfl]

/-- **One step**: what was simulated before goes on to offer the same. -/
theorem Shape.step (h : r.Shape w x (engine.Needs w x) k q) (hx : x ∈ done)
    (hr : Coherent w g nodes outputs done r) (hn : Next w g nodes done n) {content : Content}
    (hstep : Stepped w engine g n r r₁ content r') : r'.Shape w x (engine.Needs w x) k q := by
  obtain ⟨hgraph, hhas, -⟩ := hn.doneHas x hx
  have hxn : x ≠ n := fun hxn => hn.fresh (hxn ▸ hx)
  refine Shape.congr (r := r₁) ?_ (hstep.others hn hr hgraph hxn)
  by_cases hinput : x ∈ (w.node n).inputs
  · have hc : n ∈ (r.entry x).consumers := (hr.mem_consumers hgraph hhas).2 ⟨hn.mem, hinput⟩
    by_cases hpoint : (w.node n).op.isPointwise = true
    · exact h.viewed hr hgraph hhas hc hpoint (hstep.viewed hpoint)
    · exact h.reduced hr hn hinput hpoint hstep
  · exact h.congr (hstep.grown.untouched x hgraph hinput)

/-- **The simulated node** offers its own padding value, or the fill that makes it safe. -/
theorem Stepped.exists_shape {content : Content} (h : Stepped w engine g n r r₁ content r')
    (hn : Next w g nodes done n) (hr : Coherent w g nodes outputs done r) :
    ∃ k q, r'.Shape w n (engine.Needs w n) k q := by
  obtain ⟨hconsumers, -, hpadding, hfirst, -⟩ := h.own hn hr
  have hstored := h.entry_stored hn hr
  have hsame : (r'.entry n).consumers = ((r₁.store n content).entry n).consumers := by
    rw [hconsumers, hstored]
  have hclone : (r'.entry n).padding.map PaddingValue.clone =
      ((r₁.store n content).entry n).padding.map PaddingValue.clone := by
    rw [hpadding, hstored]
    rfl
  have hsensitive : r'.sensitive w n = (r₁.store n content).sensitive w n := by
    rw [sensitive, sensitive, hsame]
  have hrules : r'.rules w n = (r₁.store n content).rules w n := by rw [rules, rules, hsame]
  cases h.secured with
  | kept _ _ _ _ _ hsettings _ hsafe =>
    obtain ⟨p, hp, -, horigin⟩ :=
      exists_of_map_clone (p := ⟨content, some n, []⟩) (o := some _) hpadding rfl
    refine ⟨0, ⟨p.content, some n, []⟩, .own hp horigin ?_, ?_, ?_, ?_, ?_⟩
    · rw [hsensitive]
      exact hsafe.imp_right fun hholds => hholds.congr hsame hclone
    all_goals simp [hsettings]
  | filled v s _ _ hentry hfill htargets hdemanders _ hsome hneeds hv =>
    have hsettings : (r'.entry n).settings = [s] := by rw [hentry]
    refine ⟨1, ⟨.exact v, some n, []⟩, .filled (s := s) (by simp [hsettings]) hfill htargets
      (hsensitive ▸ hsome) (fun hholds => hneeds (hholds.congr hsame.symm hclone.symm))
      (hrules ▸ hv), ?_, ?_, ?_, ?_⟩
    · -- consumers that may fault are no reductions
      intro i s' hi hs' c hc u hu
      obtain rfl : i = 0 := Nat.lt_one_iff.1 hi
      obtain rfl : s = s' := by simpa [hsettings] using hs'
      have happly := (List.mem_filter.1 ((hdemanders c).1 hc)).2
      simp [hu.applying?_eq_none] at happly
    all_goals
      intro i s' hi hs'
      rw [hsettings, List.getElem?_eq_none (by simpa using hi)] at hs'
      exact absurd hs' (by simp)

/-- **A whole run**: every simulated node offers something. -/
theorem exists_shape_of_simulateFrom (hw : w.WellFormed) (hlists : w.Lists g roots nodes)
    {l rest : List NodeRef} {count i : Nat} (hsplit : nodes = done ++ (l ++ rest))
    (hr : Coherent w g nodes outputs done r)
    (hshape : ∀ x ∈ done, ∃ k q, r.Shape w x (engine.Needs w x) k q)
    (h : engine.simulateFrom w count i l r = .ok r') :
    ∀ x ∈ done ++ l, ∃ k q, r'.Shape w x (engine.Needs w x) k q := by
  refine (simulateFrom_induction hw hlists
    (I := fun done r => ∀ x ∈ done, ∃ k q, r.Shape w x (engine.Needs w x) k q) ?_ hsplit
    hr hshape h).2
  intro done n r r₁ content r' _ hn hr hstepped hshape x hx
  rcases List.mem_append.1 hx with hx | hx
  · obtain ⟨k, q, hq⟩ := hshape x hx
    exact ⟨k, q, hq.step hx hr hn hstepped⟩
  · exact List.mem_singleton.1 hx ▸ hstepped.exists_shape hn hr

end Run
end LanePadding
