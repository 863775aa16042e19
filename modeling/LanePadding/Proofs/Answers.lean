import LanePadding.Proofs.FaultSafety
import LanePadding.Proofs.Transfer
import LanePadding.Proofs.Typing

/-!
# When steps succeed

The equation of a node (`Run.infer`) tells what its padding lanes hold.  It also tells whether the
node can be simulated at all: if the equation has a solution and scalars are of the right element
types, then nothing fails.  So whether a step succeeds can be seen without looking at the state that
it leads to.  Likewise a tensor can be made safe if there is a fill, and an output can be stored if
its element type has a zero.

## What is here

* `RunM.Succeeds` — a step succeeds, with an answer and a state of a certain kind.
* `RunM.succeeds_simulate` — a node can be simulated if its equation has a solution.
* `RunM.exists_requireSafe`, `RunM.succeeds_requireOutputs` — tensors can be made safe, and outputs
  can be stored.
* `Run.exists_stepped_of_infer` — one step of an analysis.
-/

set_option autoImplicit false

namespace LanePadding

/-! ## Steps that succeed -/

namespace RunM

section Succeeds

variable {α β : Type} {r : Run} {Q : α → Run → Prop}

/-- The step succeeds on the state `r`, and `Q` holds of its answer and of the state after it. -/
def Succeeds (step : RunM α) (r : Run) (Q : α → Run → Prop) :
    Prop := ∃ a r', step.Yields r a r' ∧ Q a r'

theorem Succeeds.mono {step : RunM α} {Q' : α → Run → Prop} (h : step.Succeeds r Q)
    (hQ : ∀ a r', Q a r' → Q' a r') : step.Succeeds r Q' := by
  obtain ⟨a, r', hstep, ha⟩ := h
  exact ⟨a, r', hstep, hQ a r' ha⟩

@[simp] theorem succeeds_pure {a : α} : (pure a : RunM α).Succeeds r Q ↔ Q a r := by
  simp [Succeeds]

@[simp] theorem succeeds_bind {m : RunM α} {f : α → RunM β} {Q : β → Run → Prop} :
    (m >>= f).Succeeds r Q ↔ m.Succeeds r fun a s => (f a).Succeeds s Q := by
  simp only [Succeeds, yields_bind]
  constructor
  · rintro ⟨b, r', ⟨a, s, hm, hf⟩, hb⟩
    exact ⟨a, s, hm, b, r', hf, hb⟩
  · rintro ⟨a, s, hm, b, r', hf, hb⟩
    exact ⟨b, r', ⟨a, s, hm, hf⟩, hb⟩

@[simp] theorem succeeds_get {Q : Run → Run → Prop} : (get : RunM Run).Succeeds r Q ↔ Q r r := by
  simp [Succeeds]

@[simp] theorem succeeds_modify {f : Run → Run} {Q : PUnit → Run → Prop} :
    (modify f : RunM PUnit).Succeeds r Q ↔ Q ⟨⟩ (f r) := by
  simp only [Succeeds, yields_modify, exists_eq_left]
  constructor
  · rintro ⟨⟨⟩, h⟩
    exact h
  · exact fun h => ⟨⟨⟩, h⟩

@[simp] theorem succeeds_need {o : Option α} : (need o).Succeeds r Q ↔ ∃ a, o = some a ∧ Q a r := by
  simp [Succeeds]

@[simp] theorem succeeds_lift {x : Except RunError α} :
    (lift x).Succeeds r Q ↔ Returns x (Q · r) := by
  simp [Succeeds, Returns]

@[simp] theorem succeeds_operand {n : Node} {i : Nat} {Q : Operand → Run → Prop} :
    (operand n i).Succeeds r Q ↔ ∃ a, n.operands[i]? = some a ∧ Q a r := by
  simp [Succeeds]

@[simp] theorem succeeds_guard {c : Prop} [Decidable c] {e : RunError} {k : β → RunM α}
    {m : RunM α} :
    (if c then throw e >>= k else m).Succeeds r Q ↔ ¬c ∧ m.Succeeds r Q := by
  simp only [Succeeds, yields_guard]
  constructor
  · rintro ⟨a, r', ⟨hc, hm⟩, ha⟩
    exact ⟨hc, a, r', hm, ha⟩
  · rintro ⟨hc, a, r', hm, ha⟩
    exact ⟨a, r', ⟨hc, hm⟩, ha⟩

/-- A loop succeeds if each of its steps does, and keeps what they keep. -/
theorem succeeds_forM {f : α → RunM PUnit} {I : Run → Prop} {l : List α}
    (hstep : ∀ a ∈ l, ∀ s, I s → (f a).Succeeds s fun _ s' => I s') (hr : I r) :
    (l.forM f).Succeeds r fun _ s => I s := by
  induction l generalizing r with
  | nil => exact ⟨⟨⟩, r, yields_forM_nil.2 rfl, hr⟩
  | cons a l ih =>
    obtain ⟨_, r₁, ha, hr₁⟩ := hstep a (by simp) r hr
    obtain ⟨u, r', hrest, hr'⟩ := ih (fun b hb => hstep b (by simp [hb])) hr₁
    exact ⟨u, r', yields_forM_cons.2 ⟨r₁, ha, hrest⟩, hr'⟩

end Succeeds

end RunM

/-! ## Looking at operands -/

theorem exists_ok_of_toOption_map {ε α β : Type} {x : Except ε α} {f : α → β} {b : β}
    (h : x.toOption.map f = some b) :
    ∃ a, x = .ok a ∧ f a = b := by
  obtain ⟨a, ha, hb⟩ := Option.map_eq_some_iff.1 h
  exact ⟨a, eq_ok_of_toOption ha, hb⟩

/-- If the lanes hold a scalar, it is of the element type `d`. -/
def Content.Fits (d : DType) (c : Content) : Prop := ∀ v, c = .exact v → v.dtype = d

/-- A scalar does not survive where it meets real data. -/
theorem PaddingValue.content_meetData_ne_exact (p : PaddingValue) (v : Scalar) :
    p.meetData.content ≠ .exact v := by
  rw [meetData]
  split <;> simp [dependent, unconstrained, ofContent]

namespace Platform

variable {platform : Platform} {mode : CompareMode} {left right p : PaddingValue}

theorem exists_ofBool_of_compareWithData {v u : Scalar}
    (h : platform.compareWithData mode v = .ok p) (hu : p.content = .exact u) :
    ∃ b, u = .ofBool b := by
  obtain ⟨_, _, -, -, ⟨-, -, hb⟩ | ⟨-, -, hb⟩ | ⟨-, -, hb⟩ | ⟨-, -, hb⟩⟩ :=
    compareWithData_cases h hu
  all_goals exact ⟨_, hb⟩

/-- A comparison that is known is a truth value. -/
theorem exists_ofBool_of_comparePadding {u : Scalar}
    (h : platform.comparePadding mode left right = .ok p) (hu : p.content = .exact u) :
    ∃ b, u = .ofBool b := by
  obtain ⟨-, ⟨_, _, t, -, -, -, ht⟩ | ⟨_, _, -, -, hdata⟩ | ⟨_, _, -, -, hdata⟩ | ⟨-, -, -, ht⟩⟩ :=
    comparePadding_cases h hu
  · exact ⟨t, ht⟩
  · exact exists_ofBool_of_compareWithData hdata hu
  · exact exists_ofBool_of_compareWithData hdata hu
  · exact ⟨_, ht⟩

theorem fits_comparePadding (h : platform.comparePadding mode left right = .ok p) :
    p.content.Fits .bool := by
  intro u hu
  obtain ⟨b, rfl⟩ := exists_ofBool_of_comparePadding h hu
  rfl

end Platform

/-- From a simulated tensor, everybody reads something. -/
theorem Entry.exists_read {e : Entry} (h : e.padding.isSome = true) (x : NodeRef)
    (c : Option NodeRef) :
    ∃ p, e.read x c = some p := by
  rw [Entry.read]
  cases hsource : e.source? c with
  | none => exact Option.isSome_iff_exists.1 h
  | some i =>
    obtain ⟨s, v, hs, -⟩ := Entry.exists_of_source? hsource
    exact ⟨s.padding x, by simp [hs]⟩

namespace Run

/-- The inputs of the node `n` are simulated. -/
structure Ready (w : Workspace) (g : Nat) (n : NodeRef) (r : Run) : Prop where
  knows : r.Knows w g n
  tidy : r.Tidy
  simulated : ∀ x ∈ (w.node n).inputs, (r.entry x).padding.isSome = true

variable {w : Workspace} {g : Nat} {n : NodeRef} {r r' : Run}

theorem Viewed.ready {viewed resolved : List Operand} (h : Viewed w g n viewed resolved r r')
    (hr : r.Ready w g n) :
    r'.Ready w g n where
  knows := h.knows hr.knows
  tidy := h.grown.tidy hr.tidy
  simulated x hx := by
    have hsome := hr.simulated x hx
    rwa [← Option.isSome_map (f := PaddingValue.clone), h.grown.padding, Option.isSome_map]

theorem Update.isSome_padding {c : Option NodeRef} {x y : NodeRef} {t : Bool}
    (h : Update w c x t r r') (hsome : (r.entry y).padding.isSome = true) :
    (r'.entry y).padding.isSome = true := by
  by_cases hxy : x.index = y.index
  · have hentry : ∀ s : Run, s.entry y = s.entry x := fun s => by rw [entry, entry, hxy]
    rw [hentry] at hsome ⊢
    rwa [← Option.isSome_map (f := PaddingValue.clone), h.grows.map_clone, Option.isSome_map]
  · rwa [h.entry_of_ne hxy]

theorem Ready.exists_sees (hr : r.Ready w g n) {a : Operand} (ha : a ∈ (w.node n).operands) :
    ∃ p, r.sees w n a = some p := by
  cases a with
  | scalar v => exact ⟨_, rfl⟩
  | symbol name d => exact ⟨_, rfl⟩
  | node x =>
    obtain ⟨p, hp⟩ := Entry.exists_read
      (hr.simulated x (List.mem_filterMap.2 ⟨_, ha, rfl⟩)) x (some n)
    have hread : r.read x (some n) = some p := hp
    rw [Run.sees]
    split_ifs
    · exact ⟨p.clone, by rw [hread]; rfl⟩
    · exact ⟨p.meetData, by rw [hread]; rfl⟩
    · exact ⟨_, rfl⟩

/-- **A scalar that is seen** in an operand is the operand itself, or it is read from a tensor. -/
theorem sees_exact_cases {a : Operand} {p : PaddingValue} {v : Scalar} (hp : r.sees w n a = some p)
    (hv : p.content = .exact v) :
    a = .scalar v ∨ ∃ x q, a = .node x ∧ r.read x (some n) = some q ∧ q.content = .exact v := by
  cases a with
  | scalar u =>
    obtain rfl := Option.some.inj hp
    exact .inl (congrArg Operand.scalar (Content.exact.inj hv))
  | symbol name d =>
    obtain rfl := Option.some.inj hp
    cases hv
  | node x =>
    rw [sees] at hp
    split_ifs at hp
    · obtain ⟨q, hq, rfl⟩ := Option.map_eq_some_iff.1 hp
      exact .inr ⟨x, q, rfl, hq, hv⟩
    · obtain ⟨q, -, rfl⟩ := Option.map_eq_some_iff.1 hp
      exact absurd hv (q.content_meetData_ne_exact v)
    · obtain rfl := Option.some.inj hp
      cases hv

/-- What is seen in an operand fits its element type if what is read does. -/
theorem fits_sees (hreads : ∀ x ∈ (w.node n).inputs, ∀ p, r.read x (some n) = some p →
      p.content.Fits (w.node x).dtype)
    {a : Operand} (ha : a ∈ (w.node n).operands) {p : PaddingValue} (hp : r.sees w n a = some p) :
    p.content.Fits (w.operandDType a) := by
  intro v hv
  rcases sees_exact_cases hp hv with rfl | ⟨x, q, rfl, hq, hqv⟩
  · rfl
  · exact hreads x (List.mem_filterMap.2 ⟨_, ha, rfl⟩) q hq v hqv

/-- A known condition of a selection is a truth value. -/
theorem fits_condition? {engine : Engine} (hformed : (w.node n).Formed w n)
    (hreads : ∀ x ∈ (w.node n).inputs, ∀ p, r.read x (some n) = some p →
      p.content.Fits (w.node x).dtype)
    {k : Content} (hk : r.condition? w engine n = some k) : k.Fits .bool := by
  have hoperands := hformed.operands_typed
  rw [condition?] at hk
  split at hk
  · rename_i hop
    rw [hop] at hoperands
    obtain ⟨c, t, f, hctf, hc, -⟩ := hoperands
    obtain ⟨p, hp, rfl⟩ := Option.map_eq_some_iff.1 hk
    rw [seesAt, hctf] at hp
    exact hc ▸ fits_sees hreads (by simp [hctf]) hp
  · obtain ⟨p, hp, rfl⟩ := Option.map_eq_some_iff.1 hk
    obtain ⟨left, -, hp⟩ := Option.bind_eq_some_iff.1 hp
    obtain ⟨right, -, hp⟩ := Option.bind_eq_some_iff.1 hp
    exact Platform.fits_comparePadding (eq_ok_of_toOption hp)
  · exact absurd hk (by simp)

/-- Whatever answers what is seen in an operand, up to the consumers that rely on it. -/
theorem Ready.exists_of_sees (hr : r.Ready w g n) {a : Operand} (ha : a ∈ (w.node n).operands)
    {p : Option PaddingValue} (hp : p.map PaddingValue.clone = r.sees w n a) :
    ∃ q, p = some q ∧ r.sees w n a = some q.clone := by
  obtain ⟨q, hq⟩ := hr.exists_sees ha
  rw [hq] at hp
  obtain ⟨q', rfl, rfl⟩ := Option.map_eq_some_iff.1 hp
  exact ⟨q', rfl, hq⟩

end Run

namespace RunM

variable {w : Workspace} {g : Nat} {n : NodeRef} {r r' : Run} {engine : Engine}

theorem succeeds_view (hr : r.Ready w g n) {a : Operand} (ha : a ∈ (w.node n).operands) :
    (view w n a).Succeeds r fun p s =>
      Run.Viewed w g n [a] [] r s ∧ ∃ q, p = some q ∧ r.sees w n a = some q.clone := by
  have hsome : (view w n a).Succeeds r fun _ _ => True := by
    cases a with
    | scalar v => exact succeeds_pure.2 trivial
    | symbol name d => exact succeeds_pure.2 trivial
    | node x =>
      have hx : x ∈ (w.node n).inputs := List.mem_filterMap.2 ⟨_, ha, rfl⟩
      -- once the copies are demanded, there is something to be read
      have hanswer : ∀ s : Run, s.Ready w g n → (do
          let own := (← get).read x (some n)
          if ((w.node n).axesIntoPadding (w.node x)).isEmpty then return own
          else if (w.node n).paddingReadsPadding (w.node x) then return some (← need own).meetData
          else
            return some (.ofContent (.dependent (some
              ⟨x, (((w.node n).axesIntoPadding (w.node x)).filterMap id).map Int.ofNat⟩))) :
          RunM (Option PaddingValue)).Succeeds s fun _ _ => True := by
        intro s hs
        obtain ⟨p, hp⟩ := Entry.exists_read (hs.simulated x hx) x (some n)
        simp only [succeeds_bind, succeeds_get]
        split_ifs
        · exact succeeds_pure.2 trivial
        · exact (succeeds_bind ..).2 (succeeds_need.2 ⟨p, hp, succeeds_pure.2 trivial⟩)
        · exact succeeds_pure.2 trivial
      simp only [view]
      split
      · rename_i hfix
        have hviewed := Run.viewed_write hr.knows hx (by simpa [Workspace.laneFix] using hfix)
        exact (succeeds_bind ..).2
          ⟨(), _, yields_demand_position.2 rfl, hanswer _ (hviewed.ready hr)⟩
      · exact hanswer r hr
  obtain ⟨p, r', hview, -⟩ := hsome
  obtain ⟨hviewed, hp⟩ := view_spec hr.knows ha hview
  exact ⟨p, r', hview, hviewed, hr.exists_of_sees ha hp⟩

theorem succeeds_resolveBranch (hr : r.Ready w g n) {a : Operand} (ha : a ∈ (w.node n).operands) :
    (resolveBranch w n a).Succeeds r fun p s => Run.Viewed w g n [a] [a] r s ∧ ∃ q, p = some q := by
  have hsome : (resolveBranch w n a).Succeeds r fun _ _ => True := by
    refine (succeeds_bind ..).2 ((succeeds_view hr ha).mono fun seen s hs => ?_)
    cases a with
    | scalar v => exact succeeds_pure.2 trivial
    | symbol name d => exact succeeds_pure.2 trivial
    | node x =>
      obtain ⟨p, hp⟩ := Option.isSome_iff_exists.1
        ((hs.1.ready hr).simulated x (List.mem_filterMap.2 ⟨_, ha, rfl⟩))
      simp only [succeeds_bind, succeeds_get]
      split
      · simp only [succeeds_bind, succeeds_modify, succeeds_pure]
      · split
        · simp only [succeeds_bind, succeeds_modify, succeeds_pure]
        · simp only [succeeds_bind, succeeds_need, succeeds_modify]
          refine ⟨p, hp, ?_⟩
          split_ifs
          · simp only [succeeds_bind, succeeds_get, succeeds_pure]
          · exact succeeds_pure.2 trivial
  obtain ⟨p, r', hbranch, -⟩ := hsome
  obtain ⟨hviewed, hp⟩ := resolveBranch_spec hr.knows hr.tidy ha hbranch
  obtain ⟨q, hq, -⟩ := hr.exists_of_sees ha hp
  exact ⟨p, r', hbranch, hviewed, q, hq⟩

/-- A selection succeeds if a known condition is a truth value. -/
theorem succeeds_selectPadding (hr : r.Ready w g n) {cond : PaddingValue}
    (hcond : cond.content.Fits .bool) {t f : Operand} (ht : t ∈ (w.node n).operands)
    (hf : f ∈ (w.node n).operands) {content : Content}
    (hselect : selectContent cond.content (r.sees w n t) (r.sees w n f) = some content) :
    (selectPadding w n cond t f).Succeeds r fun p _ => ∃ q, p = some q ∧ q.content = content := by
  -- both branches are looked at if the condition is not known
  have hboth : ∀ k : Content, (do
      let seenTrue ← resolveBranch w n t
      let seenFalse ← resolveBranch w n f
      let t ← need seenTrue
      let f ← need seenFalse
      if t.sameValue f then return some t
      else if k = .unconstrained ∨ t.content = .unconstrained ∨ f.content = .unconstrained then
        return some .unconstrained
      else return some .dependent : RunM (Option PaddingValue)).Succeeds r fun _ _ => True := by
    intro k
    refine (succeeds_bind ..).2 ((succeeds_resolveBranch hr ht).mono ?_)
    rintro _ s ⟨hs, pt, rfl⟩
    refine (succeeds_bind ..).2 ((succeeds_resolveBranch (hs.ready hr) hf).mono ?_)
    rintro _ s' ⟨-, pf, rfl⟩
    simp only [succeeds_bind, succeeds_need, Option.some.injEq]
    refine ⟨pt, rfl, pf, rfl, ?_⟩
    split_ifs <;> exact succeeds_pure.2 trivial
  have hsome : (selectPadding w n cond t f).Succeeds r fun _ _ => True := by
    rw [selectPadding]
    cases hc : cond.content with
    | exact v =>
      simp only [succeeds_guard]
      refine ⟨not_not.2 (hcond v hc), ?_⟩
      split_ifs
      · exact (succeeds_resolveBranch hr hf).mono fun _ _ _ => trivial
      · exact (succeeds_resolveBranch hr ht).mono fun _ _ _ => trivial
    | dependent e => exact hboth _
    | unconstrained => exact hboth _
    | unknown code => exact hboth _
  obtain ⟨p, r', h, -⟩ := hsome
  obtain ⟨-, hp⟩ := selectPadding_spec hr.knows hr.tidy ht hf h
  exact ⟨p, r', h, Option.map_eq_some_iff.1 (hp.trans hselect)⟩

/-! ## Simulating a node -/

/-- Looking at the first operand, whatever is done with what is seen there. -/
theorem succeeds_viewFirst (hr : r.Ready w g n) {a : Operand} {rest : List Operand}
    (hoperands : (w.node n).operands = a :: rest) {Q : PaddingValue → Run → Prop}
    (hQ : ∀ p s, Run.Viewed w g n [a] [] r s → r.seesAt w n 0 = some p.clone → Q p s) :
    (operand (w.node n) 0).Succeeds r fun o s =>
      (view w n o).Succeeds s fun v s' => (need v).Succeeds s' Q := by
  refine succeeds_operand.2
    ⟨a, by simp [hoperands], (succeeds_view hr (by simp [hoperands])).mono ?_⟩
  rintro _ s ⟨hs, p, rfl, hp⟩
  refine succeeds_need.2 ⟨p, rfl, hQ p s hs ?_⟩
  rw [Run.seesAt, hoperands]
  exact hp

/-- Two operands of one element type can be looked at together. -/
theorem succeeds_viewPair (hr : r.Ready w g n) (op : OpKind) {a b : Operand} {rest : List Operand}
    (hoperands : (w.node n).operands = a :: b :: rest) (hab : w.operandDType a = w.operandDType b) :
    (viewPair w n op).Succeeds r fun p s => Run.Viewed w g n [a, b] [] r s ∧
      ∃ left right, p = (some left, some right) ∧ r.seesAt w n 0 = some left.clone ∧
        r.seesAt w n 1 = some right.clone := by
  simp only [viewPair, hoperands, succeeds_bind, succeeds_operand, List.getElem?_cons_zero,
    List.getElem?_cons_succ, succeeds_guard]
  refine ⟨a, rfl, b, rfl, not_not.2 hab, (succeeds_view hr (by simp [hoperands])).mono ?_⟩
  rintro _ s ⟨hs, left, rfl, hleft⟩
  refine (succeeds_view (hs.ready hr) (by simp [hoperands])).mono ?_
  rintro _ s' ⟨hs', right, rfl, hright⟩
  rw [hs.sees_eq] at hright
  refine succeeds_pure.2 ⟨hs.trans hs', left, right, rfl, ?_, ?_⟩
  · rw [Run.seesAt, hoperands]
    exact hleft
  · rw [Run.seesAt, hoperands]
    exact hright

theorem succeeds_simulateCompare (hr : r.Ready w g n) (op : OpKind) {mode : CompareMode}
    {a b : Operand} {rest : List Operand} (hoperands : (w.node n).operands = a :: b :: rest)
    (hab : w.operandDType a = w.operandDType b) {p : PaddingValue}
    (hp : r.compared w engine n mode = some p) :
    (simulateCompare w engine n op mode).Succeeds r fun q s => q = p ∧
      Run.Viewed w g n [a, b] [] r s := by
  refine (succeeds_bind ..).2 ((succeeds_viewPair hr op hoperands hab).mono ?_)
  rintro _ s ⟨hs, left, right, rfl, hleft, hright⟩
  rw [Run.compared, hleft, hright, Option.bind_some, Option.bind_some] at hp
  simp only [succeeds_bind, succeeds_need, succeeds_lift]
  exact ⟨left, rfl, right, rfl, p, eq_ok_of_toOption hp, rfl, hs⟩

/-- A constant of the element type of a simulated tensor can be demanded of it. -/
theorem succeeds_record {c : Option NodeRef} {x : NodeRef} {v : Scalar} {t : Bool}
    (hsize : x.index < r.entries.size) (hsome : (r.entry x).padding.isSome = true)
    (hv : v.dtype = (w.node x).dtype) :
    (record w c x (.constant v) t).Succeeds r fun _ s => Run.Update w c x t r s := by
  obtain ⟨current, hcurrent⟩ := Entry.exists_read hsome x c
  refine ⟨(), _, yields_record_constant.2 ⟨hv, current, hcurrent, rfl⟩, ?_⟩
  split_ifs
  · exact .rely hsize
  · exact .write hsize _ (by simp [hv])

theorem succeeds_simulateReduce (hr : r.Ready w g n) {fn : ReduceFn} {axes : List Nat}
    {keep : Bool} {x : NodeRef} (hop : (w.node n).op = .reduce fn axes keep)
    (hoperands : (w.node n).operands = [.node x]) {content : Content}
    (hinfer : r.infer w engine n = some content) (hfits : content.Fits (w.node x).dtype) :
    (simulateReduce w engine n fn axes).Succeeds r fun p _ => p.content = content := by
  have hx : x ∈ (w.node n).inputs := by simp [Node.inputs, hoperands, Operand.node?]
  simp only [Run.infer, hop, hoperands, List.getElem?_cons_zero, Option.bind_some,
    Operand.node?] at hinfer
  simp only [simulateReduce, hoperands, succeeds_bind, succeeds_operand, List.getElem?_cons_zero]
  refine ⟨_, rfl, ?_⟩
  simp only [Operand.node?]
  split_ifs at hinfer ⊢
  · obtain ⟨p, hp, hcontent⟩ := Option.bind_eq_some_iff.1 hinfer
    simp only [succeeds_bind, succeeds_get, succeeds_need, succeeds_lift]
    exact ⟨p, hp, exists_ok_of_toOption_map hcontent⟩
  · obtain ⟨v, hv, rfl⟩ := exists_ok_of_toOption_map hinfer
    simp only [succeeds_bind, succeeds_lift]
    refine ⟨v, hv, ?_⟩
    simp only [demand, succeeds_bind, succeeds_get]
    exact (succeeds_record (hr.knows x hx).2 (hr.simulated x hx) (hfits v rfl)).mono fun _ s _ =>
      succeeds_pure.2 rfl

theorem succeeds_simulate_select (hop : (w.node n).op = .select) (hr : r.Ready w g n)
    (hcond : ∀ k, r.condition? w engine n = some k → k.Fits .bool) {c t f : Operand}
    (hctf : (w.node n).operands = [c, t, f]) {content : Content}
    (hinfer : r.infer w engine n = some content) :
    (simulate w engine n).Succeeds r fun p _ => p.content = content := by
  simp only [Run.infer, hop] at hinfer
  obtain ⟨k, hk, hselect⟩ := Option.bind_eq_some_iff.1 hinfer
  simp only [simulate, hop, succeeds_bind]
  refine succeeds_viewFirst hr hctf fun cond s hs hseen => ?_
  simp only [hctf, succeeds_operand, List.getElem?_cons_zero, List.getElem?_cons_succ]
  refine ⟨t, rfl, f, rfl, ?_⟩
  have hcontent : cond.content = k := by
    simp only [Run.condition?, hop, hseen] at hk
    exact Option.some.inj hk
  simp only [Run.seesAt, hctf, List.getElem?_cons_zero, List.getElem?_cons_succ, Option.bind_some,
    ← hs.sees_eq, ← hcontent] at hselect
  exact (succeeds_selectPadding (hs.ready hr) (hcontent ▸ hcond k hk) (by simp [hctf])
    (by simp [hctf]) hselect).mono fun p s' hp => succeeds_need.2 hp

theorem succeeds_simulate_cmpSel {mode : CompareMode} (hop : (w.node n).op = .cmpSel mode)
    (hr : r.Ready w g n) (hcond : ∀ k, r.condition? w engine n = some k → k.Fits .bool)
    {a b t f : Operand} (habtf : (w.node n).operands = [a, b, t, f])
    (hd : w.operandDType a = w.operandDType b) {content : Content}
    (hinfer : r.infer w engine n = some content) :
    (simulate w engine n).Succeeds r fun p _ => p.content = content := by
  simp only [Run.infer, hop] at hinfer
  obtain ⟨k, hk, hselect⟩ := Option.bind_eq_some_iff.1 hinfer
  have hcompared := hk
  simp only [Run.condition?, hop] at hcompared
  obtain ⟨cond, hcond', rfl⟩ := Option.map_eq_some_iff.1 hcompared
  simp only [simulate, hop, habtf, succeeds_bind, succeeds_operand, List.getElem?_cons_succ,
    List.getElem?_cons_zero]
  refine (succeeds_simulateCompare hr _ habtf hd hcond').mono ?_
  rintro _ s ⟨rfl, hs⟩
  refine ⟨t, rfl, f, rfl, ?_⟩
  simp only [Run.seesAt, habtf, List.getElem?_cons_zero, List.getElem?_cons_succ, Option.bind_some,
    ← hs.sees_eq] at hselect
  exact (succeeds_selectPadding (hs.ready hr) (hcond _ hk) (by simp [habtf]) (by simp [habtf])
    hselect).mono fun p s' hp => succeeds_need.2 hp

/-- **A node can be simulated if its equation has a solution**, and the answer is that solution.
Scalars have to be of the right element types. -/
theorem succeeds_simulate (hformed : (w.node n).Formed w n) (hr : r.Ready w g n)
    (hcond : ∀ k, r.condition? w engine n = some k → k.Fits .bool) {content : Content}
    (hinfer : r.infer w engine n = some content) (hfits : content.Fits (w.node n).dtype) :
    (simulate w engine n).Succeeds r fun p _ => p.content = content := by
  have hoperands := hformed.operands_typed
  cases hop : (w.node n).op <;> rw [hop] at hoperands
  case reduce fn axes keep =>
    obtain ⟨x, hx, hd⟩ := hoperands
    simp only [simulate, hop]
    exact succeeds_simulateReduce hr hop hx hinfer (hd ▸ hfits)
  case select =>
    obtain ⟨c, t, f, hctf, -⟩ := hoperands
    exact succeeds_simulate_select hop hr hcond hctf hinfer
  case cmpSel mode =>
    obtain ⟨a, b, t, f, habtf, -, hd, -⟩ := hoperands
    exact succeeds_simulate_cmpSel hop hr hcond habtf hd hinfer
  all_goals simp only [Run.infer, hop] at hinfer
  all_goals simp only [simulate, hop]
  case placeholder declared => exact succeeds_lift.2 (exists_ok_of_toOption_map hinfer)
  case constant v => exact succeeds_pure.2 (Option.some.inj hinfer)
  case unary fn =>
    obtain ⟨a, ha, -⟩ := hoperands
    simp only [succeeds_bind]
    refine succeeds_viewFirst hr ha fun p s _ hp => ?_
    rw [hp, Option.bind_some] at hinfer
    exact succeeds_lift.2 (exists_ok_of_toOption_map hinfer)
  case cast =>
    obtain ⟨a, ha, -⟩ := hoperands
    simp only [succeeds_bind]
    refine succeeds_viewFirst hr ha fun p s _ hp => ?_
    rw [hp, Option.bind_some] at hinfer
    exact succeeds_lift.2 (exists_ok_of_toOption_map hinfer)
  case broadcast =>
    obtain ⟨a, ha, -⟩ := hoperands
    simp only [succeeds_bind]
    refine succeeds_viewFirst hr ha fun p s _ hp => ?_
    rw [hp] at hinfer
    exact Option.some.inj hinfer
  case binary fn =>
    obtain ⟨a, b, hab, hda, hdb⟩ := hoperands
    simp only [succeeds_bind]
    refine (succeeds_viewPair hr _ hab (hda.trans hdb.symm)).mono ?_
    rintro _ s ⟨-, left, right, rfl, hleft, hright⟩
    rw [hleft, hright, Option.bind_some, Option.bind_some] at hinfer
    simp only [succeeds_need, succeeds_lift]
    exact ⟨left, rfl, right, rfl, exists_ok_of_toOption_map hinfer⟩
  case compare mode =>
    obtain ⟨a, b, hab, -, -, hd⟩ := hoperands
    obtain ⟨p, hp, rfl⟩ := Option.map_eq_some_iff.1 hinfer
    exact (succeeds_simulateCompare hr _ hab hd hp).mono fun q s hq => congrArg _ hq.1
  case invalid | unknown => exact hoperands.elim

/-! ## Making a tensor safe -/

/-- **A simulated tensor can be made safe** if it holds a safe value or there is a fill. -/
theorem exists_requireSafe {x : NodeRef} (hsize : x.index < r.entries.size) {p : PaddingValue}
    (hp : (r.entry x).padding = some p)
    (hfill : r.sensitive w x ≠ [] → Run.isSafe (r.rules w x) p = false →
      ∃ v, FaultRule.fill? (r.rules w x) (w.node x).dtype (r.rules w x) = .ok (some v)) :
    ∃ r', (requireSafe w x).Yields r () r' := by
  simp only [yields_requireSafe]
  by_cases hsensitive : r.sensitive w x = []
  · exact ⟨r, .inl ⟨hsensitive, rfl⟩⟩
  · cases hsafe : Run.isSafe (r.rules w x) p with
    | true =>
      obtain ⟨_, r', hloop, -⟩ := succeeds_forM (r := r) (I := fun _ => True) (l := r.sensitive w x)
        (f := fun c => modify fun r => r.modifyEntry x fun e => e.addTarget (some c))
        (fun _ _ _ _ => succeeds_modify.2 trivial) trivial
      exact ⟨r', .inr ⟨hsensitive, p, hp, .inl ⟨hsafe, hloop⟩⟩⟩
    | false =>
      obtain ⟨v, hv⟩ := hfill hsensitive hsafe
      obtain ⟨_, r', hloop, -⟩ := succeeds_forM (r := r) (l := r.sensitive w x)
        (I := fun s => x.index < s.entries.size ∧ (s.entry x).padding.isSome = true)
        (f := fun c => record w (some c) x (.constant v) false)
        (fun c _ s hs =>
          (succeeds_record hs.1 hs.2 (FaultRule.value_of_fill? hv).1).mono fun _ s' h =>
            ⟨h.size ▸ hs.1, h.isSome_padding hs.2⟩) ⟨hsize, by simp [hp]⟩
      exact ⟨r', .inr ⟨hsensitive, p, hp, .inr ⟨hsafe, v, hv, hloop⟩⟩⟩

/-! ## Storing outputs -/

/-- **Outputs can be stored** if their element types have zeros. -/
theorem succeeds_requireOutputs {outputs : List NodeRef} {I : Run → Prop}
    (hzero : engine.outputPadding = true → ∀ x ∈ outputs, (w.node x).hasPadding = true →
      ∃ zero, Scalar.zero (w.node x).dtype = .ok zero)
    (hready : ∀ s, I s → ∀ x ∈ outputs, (w.node x).hasPadding = true →
      x.index < s.entries.size ∧ (s.entry x).padding.isSome = true)
    (hstep : ∀ s s' c x t, x ∈ outputs → Run.Update w c x t s s' → I s → I s') (hr : I r) :
    (requireOutputs w engine outputs).Succeeds r fun _ s => I s := by
  rw [requireOutputs]
  split_ifs with houtput
  · refine succeeds_forM (fun x hx s hs => ?_) hr
    cases hpadding : (w.node x).hasPadding with
    | false => exact ⟨(), s, yields_requireOutput.2 (.inl ⟨hpadding, rfl⟩), hs⟩
    | true =>
      obtain ⟨hindex, hsome⟩ := hready s hs x hx hpadding
      obtain ⟨zero, hzero⟩ := hzero houtput x hx hpadding
      have hdtype : zero.dtype = (w.node x).dtype := by rw [(Scalar.ofDouble_eq_ok hzero).2]
      obtain ⟨current, hcurrent⟩ := Entry.exists_read hsome x none
      cases hexact : current.isExact zero with
      | true =>
        exact ⟨(), s, yields_requireOutput.2 (.inr ⟨hpadding, zero, current, hzero, hcurrent,
          .inl ⟨hexact, rfl⟩⟩), hs⟩
      | false =>
        obtain ⟨u, s', hrecord, hupdate⟩ := succeeds_record
          (c := if 1 < (s.entry x).readers then some x else none)
          (t := decide (1 < (s.entry x).readers)) hindex hsome hdtype
        exact ⟨u, s', yields_requireOutput.2 (.inr ⟨hpadding, zero, current, hzero, hcurrent,
          .inr ⟨hexact, hrecord⟩⟩), hstep s s' _ x _ hx hupdate hs⟩
  · exact succeeds_pure.2 hr

end RunM

/-! ## One step -/

namespace Run

variable {w : Workspace} {g : Nat} {roots nodes outputs done : List NodeRef} {n : NodeRef}
  {r r₁ r' : Run} {engine : Engine} {content : Content}

theorem Next.ready (hn : Next w g nodes done n) (hr : Coherent w g nodes outputs done r)
    (hsimulated : ∀ x ∈ done, (r.entry x).padding.isSome = true) : r.Ready w g n :=
  ⟨hn.knows hr, hr.tidy, fun x hx => hsimulated x (hn.inputs x hx)⟩

/-- **One step succeeds** if the equation of the node has a solution, and there is a fill that makes
the node safe unless the solution is safe. -/
theorem exists_stepped_of_infer (hn : Next w g nodes done n)
    (hr : Coherent w g nodes outputs done r)
    (hsimulated : ∀ x ∈ done, (r.entry x).padding.isSome = true)
    (hreads : ∀ x ∈ (w.node n).inputs, ∀ p, r.read x (some n) = some p →
      p.content.Fits (w.node x).dtype) (hinfer : r.infer w engine n = some content)
      (hfits : content.Fits (w.node n).dtype)
    (hfill : r.sensitive w n ≠ [] → isSafe (r.rules w n) (.ofContent content) = false →
      ∃ v, FaultRule.fill? (r.rules w n) (w.node n).dtype (r.rules w n) = .ok (some v)) :
    ∃ r₁ r', (engine.step w n).Yields r () r' ∧ Stepped w engine g n r r₁ content r' := by
  obtain ⟨p, r₁, hsimulate, rfl⟩ :=
    RunM.succeeds_simulate hn.formed (hn.ready hr hsimulated)
      (fun k hk => fits_condition? hn.formed hreads hk) hinfer hfits
  have hvisit : (RunM.visit w engine n).Yields r () (r₁.store n p.content) :=
    yields_visit.2 ⟨p, r₁, hsimulate, hfits, rfl⟩
  obtain ⟨hgrown, -⟩ := simulated hn hr hsimulate
  have hsize : n.index < r₁.entries.size := hgrown.size ▸ hn.index_lt hr
  have hstored : (r₁.store n p.content).entry n =
      { r.entry n with padding := some ⟨p.content, some n, []⟩ } := by
    rw [entry_store hsize, if_pos rfl, hgrown.untouched n hn.graph hn.not_mem_inputs]
  obtain ⟨r', hsafe⟩ := RunM.exists_requireSafe (w := w) (x := n) (r := r₁.store n p.content)
    (by rwa [size_store]) (by rw [hstored]) (by rw [sensitive, rules, hstored]; exact hfill)
  exact ⟨r₁, r', RunM.yields_bind.2 ⟨(), _, hvisit, hsafe⟩,
    stepped_of_yields hn hr hsimulate hvisit hsafe⟩

end Run
end LanePadding
