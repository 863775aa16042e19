import LanePadding.Proofs.Simulation

/-!
# Making a tensor safe for its consumers

Right after a tensor is simulated, and before anybody reads it, its padding lanes are made safe for
the consumers that may fault on them.  Either its own padding value suits all of them, and they are
noted on it, or the first setting of the tensor becomes an unconditional fill.  `Run.Secured` tells
these outcomes apart, and `RunM.requireSafe_spec` shows that there are no others.

The consumers are served one after the other.  The first one that needs the fill makes the setting;
those that follow read it already and only join it (`RunM.forM_record_again`), which is why there is
a single unconditional constant in the end.
-/

set_option autoImplicit false

namespace LanePadding

open Number

/-! ## Rules -/

namespace FaultRule

/-- Rules do not see the sign of zero. -/
theorem safe_eq_of_agrees (rule : FaultRule) {x y : Double} (h : x.Agrees y) :
    rule.safe x = rule.safe y := by
  cases rule <;> simp only [safe, Double.lt, Double.le, h.isNaN_eq, h.key_eq, h.isZero_eq]

theorem allSafe_eq_of_equal (rules : List FaultRule) {a b : Scalar} (h : a.equal b = true) :
    allSafe rules a.value = allSafe rules b.value := by
  rw [allSafe]
  congr 1
  funext rule
  exact rule.safe_eq_of_agrees (Scalar.equal_iff.1 h).2

/-- A fallback that is chosen meets all rules. -/
theorem exists_of_fill? {rules candidates : List FaultRule} {d : DType} {v : Scalar}
    (h : fill? rules d candidates = .ok (some v)) :
    allSafe rules v.value = true ∧
      ∃ rule ∈ candidates, Scalar.ofDouble d rule.fallback = .ok v := by
  induction candidates with
  | nil => simp [fill?] at h
  | cons rule rest ih =>
    rw [fill?] at h
    cases hv : Scalar.ofDouble d rule.fallback with
    | error e => simp [hv, bind, Except.bind] at h
    | ok u =>
      rw [hv] at h
      change (if allSafe rules u.value = true then Except.ok (some u)
        else fill? rules d rest) = _ at h
      split at h
      · rename_i hsafe
        obtain rfl := Option.some.inj (Except.ok.inj h)
        exact ⟨hsafe, rule, by simp, hv⟩
      · obtain ⟨hsafe, rule', hrule', hv'⟩ := ih h
        exact ⟨hsafe, rule', by simp [hrule'], hv'⟩

end FaultRule

namespace Run

/-- The consumers that need their operand `x` to be safe. -/
def sensitive (w : Workspace) (r : Run) (x : NodeRef) : List NodeRef :=
  (r.entry x).consumers.filter fun c => (FaultRule.applying? w x c).isSome

/-- The rules that the padding lanes of `x` have to meet. -/
def rules (w : Workspace) (r : Run) (x : NodeRef) : List FaultRule :=
  (r.entry x).consumers.filterMap (FaultRule.applying? w x)

/-- Whether the padding value is one scalar that meets all rules. -/
def isSafe (rules : List FaultRule) (p : PaddingValue) : Bool :=
  match p.content with
  | .exact v => FaultRule.allSafe rules v.value
  | _ => false

/-- The tensor's own padding value is one scalar that meets all rules. -/
def HoldsSafe (w : Workspace) (r : Run) (x : NodeRef) : Prop :=
  ∃ p v, (r.entry x).padding = some p ∧ p.content = .exact v ∧
    FaultRule.allSafe (r.rules w x) v.value = true

/-- The state after a tensor without settings was made safe for its consumers: it holds a safe value
already, or a single unconditional fill replaces it. -/
inductive Secured (w : Workspace) (x : NodeRef) (r r' : Run) : Prop
  | kept (hsize : r'.entries.size = r.entries.size)
      (hothers : ∀ y : NodeRef, x.index ≠ y.index → r'.entry y = r.entry y)
      (hconsumers : (r'.entry x).consumers = (r.entry x).consumers)
      (hreaders : (r'.entry x).readers = (r.entry x).readers)
      (hpadding : (r'.entry x).padding.map PaddingValue.clone =
        (r.entry x).padding.map PaddingValue.clone)
      (hsettings : (r'.entry x).settings = []) (hemissions : r'.emissions = r.emissions)
      (hsafe : r.sensitive w x = [] ∨ r.HoldsSafe w x)
      (hnotes : ∀ c, (r'.entry x).Notes c ↔ (r.entry x).Notes c ∨ c ∈ r.sensitive w x)
  | filled (v : Scalar) (s : Setting) (hsize : r'.entries.size = r.entries.size)
      (hothers : ∀ y : NodeRef, x.index ≠ y.index → r'.entry y = r.entry y)
      (hentry : r'.entry x = { r.entry x with settings := [s] }) (hfill : s.fill = .constant v)
      (htargets : s.targets = []) (hdemanders : ∀ c, c ∈ s.demandedBy ↔ c ∈ r.sensitive w x)
      (hemissions : r'.emissions = r.emissions ++ [⟨x, 0⟩]) (hsensitive : r.sensitive w x ≠ [])
      (hneeds : ¬r.HoldsSafe w x)
      (hv : FaultRule.fill? (r.rules w x) (w.node x).dtype (r.rules w x) = .ok (some v))

/-- The consumers that may fault are noted on the tensor, wherever they find what they need. -/
theorem Secured.notes_iff {w : Workspace} {x : NodeRef} {r r' : Run} (h : Secured w x r r')
    (hsettings : (r.entry x).settings = []) (c : NodeRef) :
    (r'.entry x).Notes c ↔ (r.entry x).Notes c ∨ c ∈ r.sensitive w x := by
  cases h with
  | kept _ _ _ _ _ _ _ _ hnotes => exact hnotes c
  | filled v s _ _ hentry _ _ hdemanders =>
    simp only [hentry, Entry.Notes, hsettings, List.mem_singleton, exists_eq_left, hdemanders,
      List.not_mem_nil, false_and, exists_false, false_or]
    exact or_comm

/-- One consumer that may fault is served: it relies on what it reads from the tensor `x` already,
or it demands a fill there for all readers. -/
def Serve (w : Workspace) (x : NodeRef) (r r' : Run) : Prop :=
  ∃ c ∈ r.sensitive w x, Update w (some c) x false r r'

end Run

/-! ## Consumers one after the other -/

namespace RunM

variable {w : Workspace} {x : NodeRef} {r r' : Run}

/-- Consumers that rely on the tensor's own padding value are noted on it, and nothing else
changes. -/
theorem forM_addTarget (hsize : x.index < r.entries.size) {cs : List NodeRef} {u : Unit}
    (h : (cs.forM fun c => modify fun r => r.modifyEntry x fun e => e.addTarget (some c) :
      RunM Unit).Yields r u r') :
    r'.entries.size = r.entries.size ∧ r'.emissions = r.emissions ∧
      (∀ y : NodeRef, x.index ≠ y.index → r'.entry y = r.entry y) ∧
      (r'.entry x).consumers = (r.entry x).consumers ∧ (r'.entry x).readers = (r.entry x).readers ∧
      (r'.entry x).settings = (r.entry x).settings ∧
      (r'.entry x).padding.map PaddingValue.clone = (r.entry x).padding.map PaddingValue.clone ∧
      ((r.entry x).padding.isSome = true → ∀ c, (r'.entry x).Notes c ↔
        (r.entry x).Notes c ∨ c ∈ cs) := by
  induction cs generalizing r with
  | nil =>
    obtain rfl := yields_forM_nil.1 h
    simp
  | cons c cs ih =>
    obtain ⟨r₁, hmodify, hrest⟩ := yields_forM_cons.1 h
    obtain rfl := yields_modify.1 hmodify
    obtain ⟨h₁, h₂, h₃, h₄, h₅, h₆, h₇, h₈⟩ := ih (by rwa [Run.size_modifyEntry]) hrest
    have hentry : (r.modifyEntry x fun e => e.addTarget (some c)).entry x =
        (r.entry x).addTarget (some c) := by
      rw [Run.entry_modifyEntry hsize, if_pos rfl]
    rw [hentry] at h₄ h₅ h₆ h₇ h₈
    refine ⟨by rw [h₁, Run.size_modifyEntry], h₂, fun y hy => ?_, h₄, h₅, h₆,
      h₇.trans ?_, fun hsome c' => ?_⟩
    · rw [h₃ y hy, Run.entry_modifyEntry hsize, if_neg hy]
    · rw [Entry.addTarget, Option.map_map]
      rfl
    · obtain ⟨p, hp⟩ := Option.isSome_iff_exists.1 hsome
      rw [h₈ (by simpa [Entry.addTarget] using hsome), Entry.notes_addTarget hp, Option.some.injEq,
        List.mem_cons, or_assoc, eq_comm]

/-- A tensor with a single unconditional constant is read as this constant by everybody. -/
theorem fillFor_single {s : Setting} {v : Scalar} (hfill : s.fill = .constant v)
    (htargets : s.targets = []) (c : Option NodeRef) : fillFor [s] c = some v := by
  have hconst : s.constant? = some v := by rw [Setting.constant?, hfill]
  have hgeneral : s.general? = some v := by
    simp [Setting.general?, Setting.isTargeted, htargets, hconst]
  rw [fillFor]
  by_cases hd : s.IsDemandedBy c
  · simp [Setting.demanded?, hd, hconst]
  · simp [Setting.demanded?, hd, hgeneral]

theorem source?_single {e : Entry} {s : Setting} {v : Scalar} (hsettings : e.settings = [s])
    (hfill : s.fill = .constant v) (htargets : s.targets = []) (c : Option NodeRef) :
    e.source? c = some 0 := by
  have hsome : ((e.source? c).bind fun i => e.settings[i]?.bind Setting.constant?) = some v := by
    rw [← Entry.fillFor_eq, hsettings, fillFor_single hfill htargets]
  obtain ⟨i, hi, hv⟩ := Option.bind_eq_some_iff.1 hsome
  rw [hi]
  cases i with
  | zero => rfl
  | succ i => simp [hsettings] at hv

/-- Consumers that demand the constant which a tensor has for everybody are added to its
demanders. -/
theorem forM_record_again (hsize : x.index < r.entries.size) {v : Scalar} {s : Setting}
    (hsettings : (r.entry x).settings = [s]) (hfill : s.fill = .constant v)
    (htargets : s.targets = []) {cs : List NodeRef} {u : Unit}
    (h : (cs.forM fun c => record w (some c) x (.constant v) false).Yields r u r') :
    ∃ s', r'.entries.size = r.entries.size ∧ r'.emissions = r.emissions ∧
      (∀ y : NodeRef, x.index ≠ y.index → r'.entry y = r.entry y) ∧
      r'.entry x = { r.entry x with settings := [s'] } ∧ s'.fill = .constant v ∧ s'.targets = [] ∧
      ∀ c, c ∈ s'.demandedBy ↔ c ∈ s.demandedBy ∨ c ∈ cs := by
  induction cs generalizing r s with
  | nil =>
    obtain rfl := yields_forM_nil.1 h
    refine ⟨s, rfl, rfl, fun _ _ => rfl, ?_, hfill, htargets, by simp⟩
    rw [← hsettings]
  | cons c cs ih =>
    obtain ⟨r₁, hrecord, hrest⟩ := yields_forM_cons.1 h
    obtain ⟨-, current, hcurrent, hr₁⟩ := yields_record_constant.1 hrecord
    have hexact : current.isExact v = true := by
      rw [Run.read, Entry.read_eq, hsettings, fillFor_single hfill htargets] at hcurrent
      obtain rfl := Option.some.inj hcurrent
      exact Scalar.equal_refl v
    rw [if_pos hexact] at hr₁
    have hrely : (r.entry x).rely (some c) =
        { r.entry x with settings := [s.addDemand (some c) false] } := by
      have htargeted : s.isTargeted = false := by simp [Setting.isTargeted, htargets]
      rw [Entry.rely, source?_single hsettings hfill htargets]
      simp only [Entry.modifySetting, hsettings, List.modify_cons, htargeted]
      rfl
    have hentry : r₁.entry x = { r.entry x with settings := [s.addDemand (some c) false] } := by
      rw [hr₁, Run.entry_modifyEntry hsize, if_pos rfl, hrely]
    have htargets' : (s.addDemand (some c) false).targets = [] := by
      rw [Setting.addDemand]
      split <;> simp [htargets]
    have hsize' : r₁.entries.size = r.entries.size := by rw [hr₁, Run.size_modifyEntry]
    obtain ⟨s', h₁, h₂, h₃, h₄, h₅, h₆, h₇⟩ := ih (s := s.addDemand (some c) false)
      (by rwa [hsize']) (by rw [hentry]) ((Setting.fill_addDemand ..).trans hfill) htargets' hrest
    refine ⟨s', h₁.trans hsize', ?_, fun y hy => ?_, ?_, h₅, h₆, fun c' => ?_⟩
    · rw [h₂, hr₁]
      rfl
    · rw [h₃ y hy, hr₁, Run.entry_modifyEntry hsize, if_neg hy]
    · rw [h₄, hentry]
    · rw [h₇, Setting.mem_demandedBy_addDemand, List.mem_cons, Option.some.injEq, or_assoc, eq_comm]

/-- Consumers that demand a constant of a tensor without settings, which does not hold it, share one
unconditional setting. -/
theorem forM_record (hsize : x.index < r.entries.size) {v : Scalar}
    (hsettings : (r.entry x).settings = [])
    (hother : ∀ p, (r.entry x).padding = some p → p.isExact v = false) {cs : List NodeRef}
    (hcs : cs ≠ []) {u : Unit}
    (h : (cs.forM fun c => record w (some c) x (.constant v) false).Yields r u r') :
    ∃ s, r'.entries.size = r.entries.size ∧ r'.emissions = r.emissions ++ [⟨x, 0⟩] ∧
      (∀ y : NodeRef, x.index ≠ y.index → r'.entry y = r.entry y) ∧
      r'.entry x = { r.entry x with settings := [s] } ∧ s.fill = .constant v ∧ s.targets = [] ∧
      ∀ c, c ∈ s.demandedBy ↔ c ∈ cs := by
  cases cs with
  | nil => exact absurd rfl hcs
  | cons c cs =>
    obtain ⟨r₁, hrecord, hrest⟩ := yields_forM_cons.1 h
    obtain ⟨-, current, hcurrent, hr₁⟩ := yields_record_constant.1 hrecord
    have hexact : current.isExact v = false := by
      refine hother current ?_
      rw [Run.read, Entry.read_eq, hsettings] at hcurrent
      exact hcurrent
    rw [if_neg (by simp [hexact])] at hr₁
    have hnone : (r.entry x).settingOf? (.constant v) false = none := by
      rw [Entry.settingOf?, hsettings]
      rfl
    have hentry : r₁.entry x =
        { r.entry x with settings := [Entry.newSetting (some c) (.constant v) false] } := by
      rw [hr₁, Run.entry_write hsize, if_pos rfl, Entry.write, hnone]
      simp [hsettings]
    have hsize' : r₁.entries.size = r.entries.size := by rw [hr₁, Run.size_write]
    obtain ⟨s', h₁, h₂, h₃, h₄, h₅, h₆, h₇⟩ := forM_record_again
      (s := Entry.newSetting (some c) (.constant v) false) (by rwa [hsize']) (by rw [hentry])
      (Entry.fill_newSetting ..) (Entry.targets_newSetting ..) hrest
    refine ⟨s', h₁.trans hsize', ?_, fun y hy => ?_, ?_, h₅, h₆, fun c' => ?_⟩
    · rw [h₂, hr₁, Run.emissions_write, Run.newEmissions, hnone, hsettings]
      rfl
    · rw [h₃ y hy, hr₁, Run.entry_write hsize, if_neg hy]
    · rw [h₄, hentry]
    · rw [h₇, Entry.mem_demandedBy_newSetting, List.mem_cons, Option.some.injEq, eq_comm]

/-- What is done to make a tensor safe: its consumers that may fault are noted on the safe value
that it holds, or they all demand the same fill. -/
theorem yields_requireSafe {u : Unit} :
    (requireSafe w x).Yields r u r' ↔
      r.sensitive w x = [] ∧ r' = r ∨
      r.sensitive w x ≠ [] ∧ ∃ p, (r.entry x).padding = some p ∧
        (Run.isSafe (r.rules w x) p = true ∧
            ((r.sensitive w x).forM fun c => modify fun r => r.modifyEntry x fun e =>
              e.addTarget (some c) :
              RunM Unit).Yields r u r' ∨
          Run.isSafe (r.rules w x) p = false ∧
            ∃ v, FaultRule.fill? (r.rules w x) (w.node x).dtype (r.rules w x) = .ok (some v) ∧
              ((r.sensitive w x).forM fun c => record w (some c) x
                (.constant v) false).Yields r u r') := by
  rw [requireSafe, yields_get_bind]
  change (if (r.sensitive w x).isEmpty = true then pure () else
    need (r.entry x).padding >>= fun p =>
      if Run.isSafe (r.rules w x) p = true then
        (r.sensitive w x).forM fun c => modify fun r => r.modifyEntry x fun e =>
          e.addTarget (some c)
      else
        lift (RunError.ofScalar
          (FaultRule.fill? (r.rules w x) (w.node x).dtype (r.rules w x))) >>= _ :
      RunM Unit).Yields r u r' ↔ _
  by_cases hnone : r.sensitive w x = []
  · simp [hnone]
  · simp only [List.isEmpty_iff, hnone, if_false, yields_bind, yields_need, false_and,
      false_or, ne_eq, not_false_eq_true, true_and]
    constructor
    · rintro ⟨p, s, ⟨hp, hs⟩, hrest⟩
      subst s
      refine ⟨p, hp, ?_⟩
      cases hsafe : Run.isSafe (r.rules w x) p with
      | true => exact .inl ⟨rfl, by simpa [hsafe] using hrest⟩
      | false =>
        rw [hsafe, if_neg Bool.false_ne_true, yields_bind] at hrest
        obtain ⟨o, s, hlift, hloop⟩ := hrest
        obtain ⟨hfill, hs⟩ := yields_lift.1 hlift
        subst s
        cases o with
        | none => exact absurd hloop not_yields_throw
        | some v => exact .inr ⟨rfl, v, RunError.ofScalar_eq_ok.1 hfill, hloop⟩
    · rintro ⟨p, hp, hrest⟩
      refine ⟨p, r, ⟨hp, rfl⟩, ?_⟩
      rcases hrest with ⟨hsafe, h⟩ | ⟨hsafe, v, hfill, h⟩
      · simpa [hsafe] using h
      · rw [hsafe, if_neg Bool.false_ne_true, yields_bind]
        exact ⟨some v, r, yields_lift.2 ⟨RunError.ofScalar_eq_ok.2 hfill, rfl⟩, h⟩

/-- **Making a tensor safe**: right after it was simulated, it holds a safe value already or gets
one unconditional fill. -/
theorem requireSafe_spec (hsize : x.index < r.entries.size) (hsettings : (r.entry x).settings = [])
    {u : Unit} (h : (requireSafe w x).Yields r u r') : r.Secured w x r' := by
  rcases yields_requireSafe.1 h with ⟨hnone, rfl⟩ | ⟨hsome, p, hp, hrest⟩
  · exact .kept rfl (fun _ _ => rfl) rfl rfl rfl hsettings rfl (.inl hnone) (by simp [hnone])
  · -- the check is the statement that the padding value is safe
    have hholds : r.HoldsSafe w x ↔ Run.isSafe (r.rules w x) p = true := by
      simp only [Run.HoldsSafe, Run.isSafe, hp, Option.some.injEq]
      cases hcontent : p.content <;> simp [hcontent]
    rcases hrest with ⟨hsafe, hloop⟩ | ⟨hfails, v, hv, hloop⟩
    · obtain ⟨h₁, h₂, h₃, h₄, h₅, h₆, h₇, h₈⟩ := forM_addTarget hsize hloop
      exact .kept h₁ h₃ h₄ h₅ h₇ (h₆.trans hsettings) h₂ (.inr (hholds.2 hsafe)) (h₈ (by simp [hp]))
    · have hneeds : ¬r.HoldsSafe w x := fun h => by simp [hholds.1 h] at hfails
      -- the tensor does not hold the fill already, since that is safe
      have hother : ∀ q, (r.entry x).padding = some q → q.isExact v = false := by
        intro q hq
        obtain rfl : p = q := Option.some.inj (hp.symm.trans hq)
        by_contra hexact
        refine hneeds (hholds.2 ?_)
        rw [PaddingValue.isExact] at hexact
        cases hcontent : p.content with
        | exact a =>
          simp only [hcontent, Bool.not_eq_false] at hexact
          rw [Run.isSafe, hcontent]
          exact (FaultRule.allSafe_eq_of_equal _ hexact).trans (FaultRule.exists_of_fill? hv).1
        | _ => simp [hcontent] at hexact
      obtain ⟨s, h₁, h₂, h₃, h₄, h₅, h₆, h₇⟩ := forM_record hsize hsettings hother hsome hloop
      exact .filled v s h₁ h₃ h₄ h₅ h₆ h₇ h₂ hsome hneeds hv

/-! ## The updates one by one -/

/-- What is done for each element of a list is a sequence of updates if it is one for every
element. -/
theorem path_of_forM {α : Type} {f : α → RunM PUnit} {R : Run → Run → Prop}
    {I : Run → Prop} {l : List α}
    (hstep : ∀ a ∈ l, ∀ {s s'}, I s → (f a).Yields s ⟨⟩ s' → R s s' ∧ I s') (hr : I r) {u : PUnit}
    (h : (l.forM f).Yields r u r') : Relation.ReflTransGen R r r' := by
  induction l generalizing r with
  | nil =>
    obtain rfl := yields_forM_nil.1 h
    exact .refl
  | cons a l ih =>
    obtain ⟨r₁, hfirst, hrest⟩ := yields_forM_cons.1 h
    obtain ⟨hR, hI⟩ := hstep a (by simp) hr hfirst
    exact .head hR (ih (fun b hb => hstep b (by simp [hb])) hI hrest)

/-- Consumers are served one after the other. -/
theorem serves_of_requireSafe (hsize : x.index < r.entries.size)
    (hsettings : (r.entry x).settings = []) {u : Unit} (h : (requireSafe w x).Yields r u r') :
    Relation.ReflTransGen (Run.Serve w x) r r' := by
  rcases yields_requireSafe.1 h with ⟨-, rfl⟩ | ⟨-, p, -, ⟨-, hloop⟩ | ⟨-, v, -, hloop⟩⟩
  · exact .refl
  · -- without settings, relying on the tensor is relying on its own padding value
    refine path_of_forM (I := fun s => x.index < s.entries.size ∧
      (s.entry x).consumers = (r.entry x).consumers ∧ (s.entry x).settings = []) ?_ ⟨hsize, rfl,
      hsettings⟩ hloop
    rintro c hc s s' ⟨hsize, hconsumers, hsettings⟩ hmodify
    obtain rfl := yields_modify.1 hmodify
    have hrely : s.modifyEntry x (fun e => e.addTarget (some c)) = s.modifyEntry x fun e =>
        e.rely (some c) := by
      refine Run.modifyEntry_congr ?_
      have hnone : (s.entry x).source? (some c) = none := by
        simp [Entry.source?, hsettings, Entry.lastIndex?]
      rw [Entry.rely, hnone]
    refine ⟨⟨c, ?_, hrely ▸ .rely hsize⟩, ?_⟩
    · rwa [Run.sensitive, hconsumers]
    · rw [Run.size_modifyEntry, Run.entry_modifyEntry hsize, if_pos rfl]
      exact ⟨hsize, hconsumers, hsettings⟩
  · refine path_of_forM (I := fun s => x.index < s.entries.size ∧
      (s.entry x).consumers = (r.entry x).consumers) ?_ ⟨hsize, rfl⟩ hloop
    rintro c hc s s' ⟨hsize, hconsumers⟩ hrecord
    have hmem : c ∈ s.sensitive w x := by rwa [Run.sensitive, hconsumers]
    obtain ⟨hdtype, current, -, hs'⟩ := yields_record_constant.1 hrecord
    split at hs'
    · subst hs'
      refine ⟨⟨c, hmem, .rely hsize⟩, ?_⟩
      rw [Run.size_modifyEntry, Run.entry_modifyEntry hsize, if_pos rfl, Entry.consumers_rely]
      exact ⟨hsize, hconsumers⟩
    · subst hs'
      refine ⟨⟨c, hmem, .write hsize _ (by simp [hdtype])⟩, ?_⟩
      rw [Run.size_write, Run.entry_write hsize, if_pos rfl, Entry.consumers_write]
      exact ⟨hsize, hconsumers⟩

end RunM
end LanePadding
