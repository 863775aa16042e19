import Mathlib.Tactic.Common
import LanePadding.Analysis.Simulate
import LanePadding.Proofs.Equality

/-!
# What consumers read

The state of an analysis answers one question: which value a consumer finds in the padding lanes of
a tensor.  The answer has two parts, the constant that a setting provides (`fillFor`) and the
tensor's own padding value; `Entry.read_eq` puts them together.  Most of what an analysis does
leaves these two parts as they are, and this file says so for the operations on entries.

## What is here

* `RunM.Yields` — a step of an analysis that succeeds, with a lemma for every way to build a step.
* `fillFor` — the constant that a list of settings provides for a consumer: that of a setting which
  the consumer demanded, or else that of an unconditional setting.
* `Entry.read_eq` — a consumer reads this constant, or else the tensor's own padding value.
* `fillFor_rely` — relying on what is read already changes nothing for anybody.
* `exists_fillFor_write` — a consumer that demands its first constant reads it afterwards.
-/

set_option autoImplicit false

namespace LanePadding

/-! ## Steps that succeed -/

namespace RunM

variable {α β : Type} {r r' : Run}

/-- The step succeeds on the state `r`, with the answer `a` and the state `r'`. -/
def Yields (step : RunM α) (r : Run) (a : α) (r' : Run) : Prop := step.on r = (.ok a, r')

@[simp] theorem yields_pure {a b : α} : (pure b : RunM α).Yields r a r' ↔ a = b ∧ r' = r := by
  change (Except.ok b, r) = (Except.ok a, r') ↔ _
  rw [Prod.mk.injEq, Except.ok.injEq]
  exact ⟨fun h => ⟨h.1.symm, h.2.symm⟩, fun h => ⟨h.1.symm, h.2.symm⟩⟩

@[simp] theorem not_yields_throw {a : α} {e : RunError} : ¬(throw e : RunM α).Yields r a r' := by
  intro h
  have h' : (Except.error e, r) = ((Except.ok a, r') : Except RunError α × Run) := h
  simp at h'

@[simp] theorem yields_bind {m : RunM α} {f : α → RunM β} {b : β} {r'' : Run} :
    (m >>= f).Yields r b r'' ↔ ∃ a r', m.Yields r a r' ∧ (f a).Yields r' b r'' := by
  have hbind : (m >>= f).on r = match m.on r with
      | (.ok a, r') => (f a).on r'
      | (.error e, r') => (.error e, r') := by
    change (ExceptT.run (m >>= f)).run r = _
    rw [ExceptT.run_bind, StateT.run_bind]
    change (match (ExceptT.run m).run r with | (a, r') => _) = _
    rw [on]
    rcases (ExceptT.run m).run r with ⟨_ | a, r'⟩ <;> rfl
  unfold Yields
  rw [hbind]
  rcases m.on r with ⟨_ | a, r'⟩
  · simp
  · simp

@[simp] theorem yields_get {s : Run} : (get : RunM Run).Yields r s r' ↔ s = r ∧ r' = r := by
  change (Except.ok r, r) = (Except.ok s, r') ↔ _
  rw [Prod.mk.injEq, Except.ok.injEq]
  exact ⟨fun h => ⟨h.1.symm, h.2.symm⟩, fun h => ⟨h.1.symm, h.2.symm⟩⟩

/-- A step that reads the state first. -/
theorem yields_get_bind {f : Run → RunM β} {b : β} :
    (get >>= f).Yields r b r' ↔ (f r).Yields r b r' := by
  rw [yields_bind]
  constructor
  · rintro ⟨_, _, hget, h⟩
    obtain ⟨rfl, rfl⟩ := yields_get.1 hget
    exact h
  · exact fun h => ⟨r, r, yields_get.2 ⟨rfl, rfl⟩, h⟩

@[simp] theorem yields_modify {f : Run → Run} {u : PUnit} :
    (modify f : RunM PUnit).Yields r u r' ↔ r' = f r := by
  change (Except.ok PUnit.unit, f r) = (Except.ok u, r') ↔ _
  rw [Prod.mk.injEq]
  exact ⟨fun h => h.2.symm, fun h => ⟨rfl, h.symm⟩⟩

@[simp] theorem yields_need {o : Option α} {a : α} :
    (need o).Yields r a r' ↔ o = some a ∧ r' = r := by
  cases o with
  | none => simp [need]
  | some b => simp [need, eq_comm]

@[simp] theorem yields_lift {x : Except RunError α} {a : α} :
    (lift x).Yields r a r' ↔ x = .ok a ∧ r' = r := by
  cases x with
  | error e => simp [lift]
  | ok b => simp [lift, eq_comm]

@[simp] theorem yields_operand {n : Node} {i : Nat} {a : Operand} :
    (operand n i).Yields r a r' ↔ n.operands[i]? = some a ∧ r' = r := by
  rw [operand]
  cases n.operands[i]? with
  | none => simp
  | some b => simp [eq_comm]

@[simp] theorem yields_forM_nil {f : α → RunM PUnit} {u : PUnit} :
    (List.forM [] f).Yields r u r' ↔ r' = r := by
  change (pure ⟨⟩ : RunM PUnit).Yields r u r' ↔ _
  rw [yields_pure]
  exact ⟨fun h => h.2, fun h => ⟨rfl, h⟩⟩

@[simp] theorem yields_forM_cons {f : α → RunM PUnit} {a : α} {l : List α} {u : PUnit} :
    (List.forM (a :: l) f).Yields r u r' ↔ ∃ r₁, (f a).Yields r ⟨⟩ r₁ ∧
      (l.forM f).Yields r₁ u r' := by
  change (f a >>= fun _ => l.forM f).Yields r u r' ↔ _
  rw [yields_bind]
  exact ⟨fun ⟨_, r₁, h⟩ => ⟨r₁, h⟩, fun ⟨r₁, h⟩ => ⟨⟨⟩, r₁, h⟩⟩

theorem yields_forM_append {f : α → RunM PUnit} {l l' : List α} {u : PUnit} :
    (List.forM (l ++ l') f).Yields r u r' ↔ ∃ r₁, (l.forM f).Yields r ⟨⟩ r₁ ∧
      (l'.forM f).Yields r₁ u r' := by
  induction l generalizing r with
  | nil => simp
  | cons a l ih =>
    simp only [List.cons_append, yields_forM_cons, ih]
    constructor
    · rintro ⟨r₂, hr₂, r₁, hr₁, hrest⟩
      exact ⟨r₁, ⟨r₂, hr₂, hr₁⟩, hrest⟩
    · rintro ⟨r₁, ⟨r₂, hr₂, hr₁⟩, hrest⟩
      exact ⟨r₂, hr₂, r₁, hr₁, hrest⟩

/-- A step after a check that fails if its condition holds. -/
@[simp] theorem yields_guard {c : Prop} [Decidable c] {e : RunError} {k : β → RunM α}
    {m : RunM α} {a : α} :
    (if c then throw e >>= k else m).Yields r a r' ↔ ¬c ∧ m.Yields r a r' := by
  split
  · simp [*]
  · simp [*]

end RunM

theorem PaddingValue.exists_of_isExact {q : PaddingValue} {v : Scalar} (h : q.isExact v = true) :
    ∃ u, q.content = .exact u ∧ u.equal v = true := by
  rw [isExact] at h
  split at h
  · exact ⟨_, ‹_›, h⟩
  · simp at h

/-! ## Constants that settings provide -/

namespace Setting

/-- The scalar that the setting writes, unless it writes a position expression. -/
def constant? (s : Setting) : Option Scalar :=
  match s.fill with
  | .constant v => some v
  | .position _ => none

/-- The consumer demanded the setting; the graph output demands nothing. -/
def IsDemandedBy (s : Setting) (c : Option NodeRef) : Prop := ∃ c₀ ∈ c, c₀ ∈ s.demandedBy

instance (s : Setting) (c : Option NodeRef) : Decidable (s.IsDemandedBy c) :=
  match c with
  | none => .isFalse (by simp [IsDemandedBy])
  | some c₀ => decidable_of_iff (c₀ ∈ s.demandedBy) (by simp [IsDemandedBy])

/-- The constant that the setting provides because the consumer demanded it. -/
def demanded? (c : Option NodeRef) (s : Setting) : Option Scalar :=
  if s.IsDemandedBy c then s.constant? else none

/-- The constant that the setting provides for everybody. -/
def general? (s : Setting) : Option Scalar :=
  if s.isTargeted then none else s.constant?

theorem isConstant_fill (s : Setting) : s.fill.isConstant = s.constant?.isSome := by
  unfold constant? Fill.isConstant
  cases s.fill <;> rfl

theorem padding_of_constant? {s : Setting} {v : Scalar} (h : s.constant? = some v) (x : NodeRef) :
    s.padding x = ⟨.exact v, some x, []⟩ := by
  rw [constant?] at h
  rw [padding]
  cases hfill : s.fill with
  | constant u =>
    rw [hfill] at h
    rw [Option.some.inj h]
    rfl
  | position e => simp [hfill] at h

/-! ### A setting with one more demand -/

@[simp] theorem fill_addDemand (s : Setting) (c : Option NodeRef) (t : Bool) :
    (s.addDemand c t).fill = s.fill := by
  cases c with
  | none => rfl
  | some c =>
    rw [addDemand]
    split <;> rfl

@[simp] theorem constant?_addDemand (s : Setting) (c : Option NodeRef) (t : Bool) :
    (s.addDemand c t).constant? = s.constant? := by
  rw [constant?, fill_addDemand, constant?]

theorem mem_demandedBy_addDemand {s : Setting} {c : Option NodeRef} {t : Bool} {c' : NodeRef} :
    c' ∈ (s.addDemand c t).demandedBy ↔ c' ∈ s.demandedBy ∨ c = some c' := by
  cases c with
  | none => simp [addDemand]
  | some c =>
    rw [addDemand]
    split
    · rename_i hc
      refine ⟨.inl, ?_⟩
      rintro (h | h)
      · exact h
      · exact Option.some.inj h ▸ hc
    · simp [eq_comm]

/-- A demand with the setting's own targeting leaves it targeted or unconditional as it was. -/
theorem isTargeted_addDemand (s : Setting) (c : Option NodeRef) :
    (s.addDemand c s.isTargeted).isTargeted = s.isTargeted := by
  cases c with
  | none => rfl
  | some c =>
    rw [addDemand]
    split
    · rfl
    · cases h : s.targets <;> simp [isTargeted, h]

theorem general?_addDemand (s : Setting) (c : Option NodeRef) :
    (s.addDemand c s.isTargeted).general? = s.general? := by
  rw [general?, general?, isTargeted_addDemand, constant?_addDemand]

/-- Others do not see a demand. -/
theorem demanded?_addDemand {c c' : Option NodeRef} (h : c ≠ c') (s : Setting) (t : Bool) :
    (s.addDemand c t).demanded? c' = s.demanded? c' := by
  have hiff : (s.addDemand c t).IsDemandedBy c' ↔ s.IsDemandedBy c' := by
    simp only [IsDemandedBy, mem_demandedBy_addDemand]
    constructor
    · rintro ⟨c₀, hc₀, hold | rfl⟩
      · exact ⟨c₀, hc₀, hold⟩
      · exact absurd hc₀.symm h
    · rintro ⟨c₀, hc₀, hold⟩
      exact ⟨c₀, hc₀, .inl hold⟩
  simp only [demanded?, hiff, constant?_addDemand]

end Setting

/-- The constant that settings provide for a consumer: the last one that it demanded, or else the
last one for everybody. -/
def fillFor (settings : List Setting) (c : Option NodeRef) : Option Scalar :=
  (settings.reverse.findSome? (Setting.demanded? c)).or
    (settings.reverse.findSome? Setting.general?)

section FindLast

variable {α β : Type}

/-- Nothing is found otherwise in a list of which one element was changed without notice. -/
theorem findSome?_reverse_modify {g : α → Option β} {f : α → α} {l : List α} {i : Nat}
    (h : ∀ a, l[i]? = some a → g (f a) = g a) :
    (l.modify i f).reverse.findSome? g = l.reverse.findSome? g := by
  induction l generalizing i with
  | nil => rw [List.modify_nil]
  | cons a l ih =>
    cases i with
    | zero =>
      have ha : g (f a) = g a := h a rfl
      simp [ha]
    | succ i =>
      have hl := ih (i := i) fun b hb => h b (by simpa using hb)
      simp [hl]

theorem modify_congr {f g : α → α} {l : List α} {i : Nat} (h : ∀ a, l[i]? = some a → f a = g a) :
    l.modify i f = l.modify i g := by
  refine List.ext_getElem? fun j => ?_
  rw [List.getElem?_modify, List.getElem?_modify]
  by_cases hij : i = j
  · subst hij
    cases hl : l[i]? with
    | none => rfl
    | some a => simp [h a hl]
  · simp [hij]

theorem modify_eq_self {f : α → α} {l : List α} {i : Nat} (h : ∀ a, l[i]? = some a → f a = a) :
    l.modify i f = l :=
  (modify_congr h).trans (List.modify_id i l)

theorem exists_of_lastIndex? {p : α → Bool} {l : List α} {i : Nat}
    (h : Entry.lastIndex? p l = some i) : ∃ a, l[i]? = some a ∧ p a = true := by
  induction l generalizing i with
  | nil => simp [Entry.lastIndex?] at h
  | cons a l ih =>
    rw [Entry.lastIndex?] at h
    split at h
    · rename_i j hj
      obtain ⟨b, hb, hp⟩ := ih hj
      obtain rfl := Option.some.inj h
      exact ⟨b, by simpa using hb, hp⟩
    · split at h
      · rename_i ha
        obtain rfl := Option.some.inj h
        exact ⟨a, rfl, ha⟩
      · exact absurd h (by simp)

theorem lastIndex?_eq_none_iff {p : α → Bool} {l : List α} :
    Entry.lastIndex? p l = none ↔ ∀ a ∈ l, p a = false := by
  induction l with
  | nil => simp [Entry.lastIndex?]
  | cons a l ih =>
    rw [Entry.lastIndex?]
    cases hl : Entry.lastIndex? p l with
    | some i =>
      obtain ⟨b, hb, hp⟩ := exists_of_lastIndex? hl
      have hmem : b ∈ a :: l := List.mem_cons_of_mem _ (List.mem_of_getElem? hb)
      refine ⟨fun h => absurd h (by simp), fun h => ?_⟩
      rw [h b hmem] at hp
      exact absurd hp (by simp)
    | none =>
      have hall := ih.1 hl
      cases ha : p a <;> simp_all

/-- The last element with a property, found from the end. -/
theorem getElem?_lastIndex? (p : α → Bool) (l : List α) :
    (Entry.lastIndex? p l).bind (fun i => l[i]?) = l.reverse.find? p := by
  induction l with
  | nil => rfl
  | cons a l ih =>
    rw [Entry.lastIndex?, List.reverse_cons, List.find?_append, ← ih]
    cases hl : Entry.lastIndex? p l with
    | none => by_cases ha : p a <;> simp [ha]
    | some i =>
      obtain ⟨b, hb, -⟩ := exists_of_lastIndex? hl
      simp [hb]

/-- Searching for an element with a property and then taking its value is searching for a value. -/
theorem bind_find?_eq_findSome? {p : α → Bool} {g h : α → Option β} {l : List α}
    (hp : ∀ a, h a = if p a then g a else none) (hsome : ∀ a, p a = true → (g a).isSome) :
    (l.find? p).bind g = l.findSome? h := by
  induction l with
  | nil => rfl
  | cons a l ih =>
    rw [List.find?_cons, List.findSome?_cons, hp a]
    by_cases ha : p a
    · obtain ⟨b, hb⟩ := Option.isSome_iff_exists.1 (hsome a ha)
      simp [ha, hb]
    · simp [ha, ih]

end FindLast

/-! ## Readings -/

namespace Entry

/-- The constant of the setting found last among those with a property, all of which write
constants. -/
theorem bind_lastIndex?_constant? (settings : List Setting) (p : Setting → Bool) :
    (lastIndex? (fun s => s.fill.isConstant && p s) settings).bind
        (fun i => settings[i]?.bind Setting.constant?) =
      settings.reverse.findSome? fun s => if p s then s.constant? else none := by
  rw [← Option.bind_assoc, getElem?_lastIndex?]
  refine bind_find?_eq_findSome? (fun s => ?_) fun s hs => ?_
  · rw [Setting.isConstant_fill]
    cases hs : s.constant? <;> simp
  · rw [← Setting.isConstant_fill]
    exact (Bool.and_eq_true_iff.1 hs).1

/-- The setting from which a consumer reads writes a constant.  The consumer demanded it, or it is
unconditional and the consumer demanded no constant at all. -/
theorem exists_of_source? {e : Entry} {c : Option NodeRef} {i : Nat} (h : e.source? c = some i) :
    ∃ s v, e.settings[i]? = some s ∧ s.constant? = some v ∧
      (s.IsDemandedBy c ∨ s.isTargeted = false ∧ ∀ s' ∈ e.settings, s'.demanded? c = none) := by
  have hconst : ∀ (p : Setting → Bool),
      lastIndex? (fun s => s.fill.isConstant && p s) e.settings = some i →
      ∃ s v, e.settings[i]? = some s ∧ s.constant? = some v ∧ p s = true := by
    intro p hp
    obtain ⟨s, hs, hps⟩ := exists_of_lastIndex? hp
    obtain ⟨hfill, hps⟩ := Bool.and_eq_true_iff.1 hps
    rw [Setting.isConstant_fill] at hfill
    obtain ⟨v, hv⟩ := Option.isSome_iff_exists.1 hfill
    exact ⟨s, v, hs, hv, hps⟩
  unfold source? at h
  dsimp only at h
  split at h
  · rename_i j hj
    obtain rfl := Option.some.inj h
    obtain ⟨c₀, rfl, hj⟩ := Option.bind_eq_some_iff.1 hj
    obtain ⟨s, v, hs, hv, hps⟩ := hconst _ hj
    exact ⟨s, v, hs, hv, .inl ⟨c₀, rfl, by simpa using hps⟩⟩
  · rename_i hnone
    obtain ⟨s, v, hs, hv, hps⟩ := hconst _ h
    refine ⟨s, v, hs, hv, .inr ⟨by simpa using hps, fun s' hs' => ?_⟩⟩
    rw [Setting.demanded?]
    split
    · rename_i hd
      obtain ⟨c₀, rfl, hc₀⟩ := hd
      have hfalse := lastIndex?_eq_none_iff.1 hnone s' hs'
      rw [Setting.isConstant_fill] at hfalse
      simpa [hc₀] using hfalse
    · rfl

/-- The constant provided for a consumer is that of the setting from which it reads. -/
theorem fillFor_eq (e : Entry) (c : Option NodeRef) :
    fillFor e.settings c = (e.source? c).bind fun i => e.settings[i]?.bind Setting.constant? := by
  have hdemanded : (c.bind fun c =>
      lastIndex? (fun s => s.fill.isConstant && decide (c ∈ s.demandedBy))
      e.settings).bind (fun i => e.settings[i]?.bind Setting.constant?) =
        e.settings.reverse.findSome? (Setting.demanded? c) := by
    cases c with
    | none =>
      have hnone : e.settings.reverse.findSome? (Setting.demanded? none) = none :=
        List.findSome?_eq_none_iff.2 fun s _ => by simp [Setting.demanded?, Setting.IsDemandedBy]
      rw [hnone]
      rfl
    | some c =>
      rw [Option.bind_some, bind_lastIndex?_constant? e.settings fun s => decide (c ∈ s.demandedBy)]
      congr 1
      funext s
      simp [Setting.demanded?, Setting.IsDemandedBy]
  have hgeneral : (lastIndex? (fun s => s.fill.isConstant && !s.isTargeted) e.settings).bind
      (fun i => e.settings[i]?.bind Setting.constant?) =
        e.settings.reverse.findSome? Setting.general? := by
    rw [bind_lastIndex?_constant? e.settings fun s => !s.isTargeted]
    congr 1
    funext s
    cases hs : s.isTargeted <;> simp [Setting.general?, hs]
  rw [fillFor, ← hdemanded, ← hgeneral]
  cases hsource : c.bind fun c =>
      lastIndex? (fun s => s.fill.isConstant && decide (c ∈ s.demandedBy)) e.settings with
  | none =>
    have h : e.source? c = lastIndex? (fun s => s.fill.isConstant && !s.isTargeted) e.settings := by
      rw [source?]
      rw [hsource]
    rw [h]
    rfl
  | some i =>
    have h : e.source? c = some i := by
      rw [source?]
      rw [hsource]
    obtain ⟨s, v, hs, hv, -⟩ := exists_of_source? h
    rw [h]
    simp [hs, hv]

/-- **What a consumer reads**: the constant that the settings provide for it, or else the tensor's
own padding value. -/
theorem read_eq (e : Entry) (x : NodeRef) (c : Option NodeRef) :
    e.read x c =
      match fillFor e.settings c with
      | some v => some ⟨.exact v, some x, []⟩
      | none => e.padding := by
  rw [fillFor_eq, read]
  cases h : e.source? c with
  | none => rfl
  | some i =>
    obtain ⟨s, v, hs, hv, -⟩ := exists_of_source? h
    simp [hs, hv, Setting.padding_of_constant? hv]

/-- A consumer that demanded nothing reads what is there for everybody. -/
theorem read_of_fresh {e : Entry} {c : NodeRef} (hfresh : ∀ s ∈ e.settings, c ∉ s.demandedBy)
    (x : NodeRef) :
    e.read x (some c) = e.read x none := by
  have hnone : lastIndex?
      (fun s => s.fill.isConstant && decide (c ∈ s.demandedBy)) e.settings = none :=
    lastIndex?_eq_none_iff.2 fun s hs => by simp [hfresh s hs]
  have hsource : e.source? (some c) = e.source? none := by
    rw [source?, source?, Option.bind_some, hnone]
    rfl
  rw [read, read, hsource]

/-- **Where a scalar that is read comes from**: the tensor's own padding lanes hold it and no
constant is written for all readers, or a setting writes it which the consumer demanded or which is
for all readers. -/
theorem exact_cases {e : Entry} {x : NodeRef} {c : Option NodeRef} {q : PaddingValue} {v : Scalar}
    (hread : e.read x c = some q) (hexact : q.isExact v = true) :
    ((∃ p, e.padding = some p ∧ p.isExact v = true) ∧
        ∀ s ∈ e.settings, s.targets = [] → s.constant? = none) ∨
      ∃ s ∈ e.settings, (∃ u, s.constant? = some u ∧ u.equal v = true) ∧
      (s.IsDemandedBy c ∨ s.targets = []) := by
  rw [read] at hread
  cases hsource : e.source? c with
  | none =>
    rw [hsource] at hread
    refine .inl ⟨⟨q, hread, hexact⟩, fun s hs htargets => ?_⟩
    unfold source? at hsource
    dsimp only at hsource
    split at hsource
    · exact absurd hsource (by simp)
    · have hfalse := lastIndex?_eq_none_iff.1 hsource s hs
      simpa [Setting.isConstant_fill, Setting.isTargeted, htargets] using hfalse
  | some i =>
    obtain ⟨s, u, hs, hu, hwhy⟩ := exists_of_source? hsource
    rw [hsource] at hread
    simp only [hs, Option.map_some, Setting.padding_of_constant? hu, Option.some.injEq] at hread
    subst hread
    refine .inr ⟨s, List.mem_of_getElem? hs, ⟨u, hu, hexact⟩, hwhy.imp_right fun h => ?_⟩
    simpa [Setting.isTargeted] using h.1

end Entry

/-! ## Settings that others do not see -/

section Fills

variable {settings : List Setting}

theorem fillFor_append_singleton (s : Setting) (c : Option NodeRef) :
    fillFor (settings ++ [s]) c =
      ((s.demanded? c).or (settings.reverse.findSome? (Setting.demanded? c))).or
        (s.general?.or (settings.reverse.findSome? Setting.general?)) := by
  have hfind : ∀ g : Setting → Option Scalar,
      (settings ++ [s]).reverse.findSome? g = (g s).or (settings.reverse.findSome? g) := by
    intro g
    rw [List.reverse_append, List.reverse_singleton, List.singleton_append, List.findSome?_cons]
    cases g s <;> rfl
  rw [fillFor, hfind, hfind]

/-- A new setting that writes a position expression provides no constant. -/
theorem fillFor_append_of_position {s : Setting} (h : s.constant? = none) (c : Option NodeRef) :
    fillFor (settings ++ [s]) c = fillFor settings c := by
  have hd : s.demanded? c = none := by simp [Setting.demanded?, h]
  have hg : s.general? = none := by simp [Setting.general?, h]
  rw [fillFor_append_singleton, hd, hg, Option.none_or, Option.none_or, fillFor]

/-- Others do not see that a consumer joins a setting. -/
theorem fillFor_join {c c' : Option NodeRef} (h : c ≠ c') (i : Nat) :
    fillFor (settings.modify i fun s => s.addDemand c s.isTargeted) c' = fillFor settings c' := by
  rw [fillFor, fillFor, findSome?_reverse_modify fun s _ => Setting.demanded?_addDemand h s _,
    findSome?_reverse_modify fun s _ => Setting.general?_addDemand s c]

/-- Joining a setting that writes a position expression changes no constant. -/
theorem fillFor_join_position {c c' : Option NodeRef} {i : Nat}
    (h : ∀ s, settings[i]? = some s → s.constant? = none) :
    fillFor (settings.modify i fun s => s.addDemand c s.isTargeted) c' = fillFor settings c' := by
  have hnone : ∀ (s : Setting), s.constant? = none → s.demanded? c' = none := by
    intro s hs
    simp [Setting.demanded?, hs]
  rw [fillFor, fillFor, findSome?_reverse_modify fun s _ => Setting.general?_addDemand s c,
    findSome?_reverse_modify fun s hs => ?_]
  rw [hnone s (h s hs), hnone _ (by rw [Setting.constant?_addDemand, h s hs])]

/-- A consumer that joins its first setting with a constant is provided with it. -/
theorem fillFor_join_self {c : NodeRef} {i : Nat} {s : Setting} {v : Scalar} {t : Setting → Bool}
    (hfresh : ∀ s ∈ settings, s.demanded? (some c) = none) (hs : settings[i]? = some s)
    (hv : s.constant? = some v) :
    fillFor (settings.modify i fun s => s.addDemand (some c) (t s)) (some c) = some v := by
  have hself : (s.addDemand (some c) (t s)).demanded? (some c) = some v := by
    have hmem : (s.addDemand (some c) (t s)).IsDemandedBy (some c) :=
      ⟨c, rfl, Setting.mem_demandedBy_addDemand.2 (.inr rfl)⟩
    rw [Setting.demanded?, if_pos hmem, Setting.constant?_addDemand, hv]
  have hfind : ∀ (l : List Setting) (i : Nat), (∀ s ∈ l, s.demanded? (some c) = none) →
      l[i]? = some s → (l.modify i fun s => s.addDemand (some c) (t s)).reverse.findSome?
        (Setting.demanded? (some c)) = some v := by
    intro l
    induction l with
    | nil => intro i _ h; simp at h
    | cons a l ih =>
      intro i hl hi
      have hrest : l.reverse.findSome? (Setting.demanded? (some c)) = none :=
        List.findSome?_eq_none_iff.2 fun b hb => hl b (by simp_all)
      cases i with
      | zero =>
        obtain rfl : a = s := by simpa using hi
        simp [hrest, hself]
      | succ i =>
        have := ih i (fun b hb => hl b (by simp [hb])) (by simpa using hi)
        simp [this]
  rw [fillFor, hfind settings i hfresh hs, Option.some_or]

end Fills

namespace Entry

/-- Relying on what is read already changes no constant for anybody. -/
theorem fillFor_rely (e : Entry) (c c' : Option NodeRef) :
    fillFor (e.rely c).settings c' = fillFor e.settings c' := by
  rw [rely]
  cases hsource : e.source? c with
  | none => rfl
  | some i =>
    change fillFor (e.settings.modify i fun s => s.addDemand c s.isTargeted) c' = _
    by_cases hc : c = c'
    · subst hc
      obtain ⟨s, v, hs, hv, hread⟩ := exists_of_source? hsource
      have hbefore : fillFor e.settings c = some v := by
        rw [fillFor_eq, hsource]
        simp [hs, hv]
      rcases hread with ⟨c₀, rfl, hmem⟩ | ⟨hgeneral, hfresh⟩
      · have hsame : ∀ s', e.settings[i]? = some s' →
            s'.addDemand (some c₀) s'.isTargeted = s' := by
          intro s' hs'
          obtain rfl : s = s' := Option.some.inj (hs.symm.trans hs')
          exact if_pos hmem
        rw [modify_eq_self hsame]
      · cases c with
        | none => exact congrArg (fillFor · none) (modify_eq_self fun _ _ => rfl)
        | some c₀ => rw [hbefore, fillFor_join_self hfresh hs hv]
    · exact fillFor_join hc i

@[simp] theorem consumers_rely (e : Entry) (c : Option NodeRef) :
    (e.rely c).consumers = e.consumers := by
  rw [rely]
  split <;> rfl

@[simp] theorem readers_rely (e : Entry) (c : Option NodeRef) : (e.rely c).readers = e.readers := by
  rw [rely]
  split <;> rfl

/-! ### Writing a fill -/

/-- The setting made for a consumer that demands a fill which no setting writes yet. -/
def newSetting (c : Option NodeRef) (fill : Fill) (targeted : Bool) : Setting :=
  Setting.addDemand ⟨.normal, fill, [], []⟩ c targeted

/-- The entry with a consumer added to the setting that writes a fill, which is made if it does not
exist. -/
def write (e : Entry) (c : Option NodeRef) (fill : Fill) (targeted : Bool) : Entry :=
  match e.settingOf? fill targeted with
  | some i => e.modifySetting i fun s => s.addDemand c s.isTargeted
  | none => { e with settings := e.settings ++ [newSetting c fill targeted] }

@[simp] theorem consumers_write (e : Entry) (c : Option NodeRef) (fill : Fill) (t : Bool) :
    (e.write c fill t).consumers = e.consumers := by
  rw [write]
  split <;> rfl

@[simp] theorem readers_write (e : Entry) (c : Option NodeRef) (fill : Fill) (t : Bool) :
    (e.write c fill t).readers = e.readers := by
  rw [write]
  split <;> rfl

@[simp] theorem padding_write (e : Entry) (c : Option NodeRef) (fill : Fill) (t : Bool) :
    (e.write c fill t).padding = e.padding := by
  rw [write]
  split <;> rfl

theorem exists_of_settingOf? {e : Entry} {fill : Fill} {targeted : Bool} {i : Nat}
    (h : e.settingOf? fill targeted = some i) :
    ∃ s, e.settings[i]? = some s ∧ s.fill.equal fill = true ∧ s.isTargeted = targeted := by
  obtain ⟨hi, hs, -⟩ := List.findIdx?_eq_some_iff_getElem.1 h
  obtain ⟨hfill, htargeted⟩ := Bool.and_eq_true_iff.1 hs
  exact ⟨e.settings[i], List.getElem?_eq_getElem hi, hfill, by simpa using htargeted⟩

theorem exists_constant?_of_equal {s : Setting} {v : Scalar}
    (h : s.fill.equal (.constant v) = true) :
    ∃ u, s.constant? = some u ∧ u.equal v = true := by
  rw [Setting.constant?]
  cases hs : s.fill with
  | constant u => exact ⟨u, rfl, by simpa [Fill.equal, hs] using h⟩
  | position e => simp [Fill.equal, hs] at h

theorem fill_eq_of_equal {s : Setting} {e : PositionExpr} (h : s.fill.equal (.position e) = true) :
    s.fill = .position e := by
  cases hs : s.fill with
  | constant u => simp [Fill.equal, hs] at h
  | position e' => simpa [Fill.equal, hs] using h

@[simp] theorem fill_newSetting (c : Option NodeRef) (fill : Fill) (t : Bool) :
    (newSetting c fill t).fill = fill := Setting.fill_addDemand ..

theorem mem_demandedBy_newSetting {c : Option NodeRef} {fill : Fill} {t : Bool} {c' : NodeRef} :
    c' ∈ (newSetting c fill t).demandedBy ↔ c = some c' := by
  rw [newSetting, Setting.mem_demandedBy_addDemand]
  simp

theorem targets_newSetting (c : NodeRef) (fill : Fill) (t : Bool) :
    (newSetting (some c) fill t).targets = if t then [c] else [] := by
  cases t <;> rfl

/-- Writing a position expression changes no constant for anybody. -/
theorem fillFor_write_position (e : Entry) (c c' : Option NodeRef)
    (expr : PositionExpr) (t : Bool) :
    fillFor (e.write c (.position expr) t).settings c' = fillFor e.settings c' := by
  rw [write]
  split
  · rename_i i hi
    obtain ⟨s, hs, hfill, -⟩ := exists_of_settingOf? hi
    refine fillFor_join_position fun s' hs' => ?_
    obtain rfl : s = s' := Option.some.inj (hs.symm.trans hs')
    rw [Setting.constant?, fill_eq_of_equal hfill]
  · exact fillFor_append_of_position (by simp [Setting.constant?]) c'

/-- A consumer that demands its first constant reads it afterwards. -/
theorem exists_fillFor_write {e : Entry} {c : NodeRef}
    (hfresh : ∀ s ∈ e.settings, s.demanded? (some c) = none) (v : Scalar) (t : Bool) :
    ∃ u, fillFor (e.write (some c) (.constant v) t).settings (some c) = some u ∧
      u.equal v = true := by
  rw [write]
  split
  · rename_i i hi
    obtain ⟨s, hs, hfill, -⟩ := exists_of_settingOf? hi
    obtain ⟨u, hu, huv⟩ := exists_constant?_of_equal hfill
    exact ⟨u, fillFor_join_self hfresh hs hu, huv⟩
  · refine ⟨v, ?_, Scalar.equal_refl v⟩
    have hself : (newSetting (some c) (.constant v) t).demanded? (some c) = some v := by
      have hmem : (newSetting (some c) (.constant v) t).IsDemandedBy (some c) :=
        ⟨c, rfl, mem_demandedBy_newSetting.2 rfl⟩
      rw [Setting.demanded?, if_pos hmem, Setting.constant?, fill_newSetting]
    rw [fillFor_append_singleton, hself, Option.some_or, Option.some_or]

/-- Writing a constant for all readers leaves a setting for all readers. -/
theorem exists_of_write_all (e : Entry) (v : Scalar) :
    ∃ s ∈ (e.write none (.constant v) false).settings,
      (∃ u, s.constant? = some u ∧ u.equal v = true) ∧
      s.targets = [] := by
  rw [write]
  split
  · rename_i i hi
    obtain ⟨s, hs, hfill, htargeted⟩ := exists_of_settingOf? hi
    refine ⟨s, ?_, exists_constant?_of_equal hfill, by simpa [Setting.isTargeted] using htargeted⟩
    refine List.mem_of_getElem? (i := i) ?_
    rw [modifySetting, List.getElem?_modify, hs]
    simp [Setting.addDemand]
  · exact ⟨newSetting none (.constant v) false, by simp, ⟨v, rfl, Scalar.equal_refl v⟩, rfl⟩

/-- Writing a constant for one consumer leaves a setting with this consumer among its targets. -/
theorem exists_of_write_one {e : Entry} {c : NodeRef} (hfresh : ∀ s ∈ e.settings, c ∉ s.demandedBy)
    (v : Scalar) :
    ∃ s ∈ (e.write (some c) (.constant v) true).settings,
      (∃ u, s.constant? = some u ∧ u.equal v = true) ∧
      c ∈ s.targets := by
  rw [write]
  split
  · rename_i i hi
    obtain ⟨s, hs, hfill, htargeted⟩ := exists_of_settingOf? hi
    refine ⟨s.addDemand (some c) s.isTargeted, ?_, ?_, ?_⟩
    · refine List.mem_of_getElem? (i := i) ?_
      rw [modifySetting, List.getElem?_modify, hs]
      simp
    · rw [Setting.constant?_addDemand]
      exact exists_constant?_of_equal hfill
    · rw [Setting.addDemand, if_neg (hfresh s (List.mem_of_getElem? hs)), htargeted]
      simp
  · refine ⟨newSetting (some c) (.constant v) true, by simp, ⟨v, ?_, Scalar.equal_refl v⟩, ?_⟩
    · rw [Setting.constant?, fill_newSetting]
    · simp [targets_newSetting]

end Entry

/-! ## Entries of a state -/

namespace Run

theorem entry_modifyEntry {r : Run} {x : NodeRef} (hx : x.index < r.entries.size)
    (f : Entry → Entry) (y : NodeRef) :
    (r.modifyEntry x f).entry y = if x.index = y.index then f (r.entry y) else r.entry y := by
  simp only [entry, modifyEntry, Array.getD_eq_getD_getElem?, Array.getElem?_modify]
  split
  · rename_i hxy
    rw [← hxy, Array.getElem?_eq_getElem hx]
    rfl
  · rfl

@[simp] theorem size_modifyEntry (r : Run) (x : NodeRef) (f : Entry → Entry) :
    (r.modifyEntry x f).entries.size = r.entries.size := by
  simp [modifyEntry]

/-- What is added to the emissions when a fill is written. -/
def newEmissions (r : Run) (x : NodeRef) (fill : Fill) (targeted : Bool) : List Emission :=
  if (r.entry x).settingOf? fill targeted = none then [⟨x, (r.entry x).settings.length⟩] else []

theorem entry_write {r : Run} {x : NodeRef} (hx : x.index < r.entries.size) (c : Option NodeRef)
    (fill : Fill) (targeted : Bool) (y : NodeRef) :
    (r.write c x fill targeted).entry y =
      if x.index = y.index then (r.entry y).write c fill targeted else r.entry y := by
  have hentry : x.index = y.index → r.entry x = r.entry y := fun h => by rw [entry, entry, h]
  rw [write, Entry.write]
  dsimp only
  split
  · rename_i i hi
    rw [entry_modifyEntry hx]
    split
    · rename_i hxy
      rw [← hentry hxy, hi]
      obtain ⟨s, hs, -, htargeted⟩ := Entry.exists_of_settingOf? hi
      have hsame : (r.entry x).settings.modify i (fun s => s.addDemand c targeted) =
          (r.entry x).settings.modify i fun s => s.addDemand c s.isTargeted := by
        refine modify_congr fun s' hs' => ?_
        obtain rfl : s = s' := Option.some.inj (hs.symm.trans hs')
        rw [htargeted]
      simp only [Entry.modifySetting, hsame]
    · rfl
  · rename_i hnone
    change (r.modifyEntry x _).entry y = _
    rw [entry_modifyEntry hx]
    split
    · rename_i hxy
      rw [← hentry hxy, hnone]
      rfl
    · rfl

theorem emissions_write (r : Run) (c : Option NodeRef) (x : NodeRef) (fill : Fill)
    (targeted : Bool) :
    (r.write c x fill targeted).emissions = r.emissions ++ r.newEmissions x fill targeted := by
  rw [write, newEmissions]
  dsimp only
  split <;> rename_i h <;> rw [h]
  · exact (List.append_nil _).symm
  · rfl

@[simp] theorem size_write (r : Run) (c : Option NodeRef) (x : NodeRef) (fill : Fill)
    (targeted : Bool) :
    (r.write c x fill targeted).entries.size = r.entries.size := by
  rw [write]
  dsimp only
  split <;> exact size_modifyEntry ..

end Run
end LanePadding
