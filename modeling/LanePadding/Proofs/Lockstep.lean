import LanePadding.Proofs.OutputStores

/-!
# Steps that do the same

Two analyses, in the same workspace or not, may do the same for a while.  This is shown step by
step.  `RunM.Lockstep R m m' Q` says that from states related by `R` both steps succeed, with
answers related by `Q` and with states related by `R` again, or that both fail.  There is a rule for
every way to build a step, so that the definitions of the two analyses can be gone through at the
same time.

A consumer may be called otherwise in the second analysis, which shows in the targets of fills and
padding values and in who demanded a setting.  Entries that are the same up to that mirror each
other, and whatever is done to both of them keeps it that way.

## What is here

* `RunM.Lockstep` — steps that do the same, with a rule for every way to build a step.
* `RunM.Leads` — computations that succeed together, with states that may be related otherwise than
  at the start.
* `Setting.retarget`, `PaddingValue.retarget`, `Action.retarget` — consumers are renamed.
* `Entry.Mirrors` — entries that are the same up to the names of consumers.
-/

set_option autoImplicit false

namespace LanePadding

/-! ## Steps that do the same -/

namespace RunM

variable {α β γ δ : Type} {R : Run → Run → Prop}

theorem Yields.unique {m : RunM α} {r s s' : Run} {a a' : α} (h : m.Yields r a s)
    (h' : m.Yields r a' s') :
    a' = a ∧ s' = s := by
  have hsame := h'.symm.trans h
  rwa [Prod.mk.injEq, Except.ok.injEq] at hsame

/-- From the state, the step does not succeed. -/
def Fails (m : RunM α) (r : Run) : Prop := ∀ a s, ¬m.Yields r a s

theorem Fails.bind {m : RunM α} {r : Run} (h : m.Fails r) (f : α → RunM β) : (m >>= f).Fails r := by
  intro b t hyields
  obtain ⟨a, s, ha, -⟩ := yields_bind.1 hyields
  exact h a s ha

theorem Yields.fails_bind {m : RunM α} {r s : Run} {a : α} (h : m.Yields r a s) {f : α → RunM β}
    (hf : (f a).Fails s) :
    (m >>= f).Fails r := by
  intro b t hyields
  obtain ⟨a', s', ha', hb⟩ := yields_bind.1 hyields
  obtain ⟨rfl, rfl⟩ := h.unique ha'
  exact hf b t hb

/-- From states related by `R`, both steps succeed, with answers related by `Q` and states related
by `R`, or both fail. -/
def Lockstep (R : Run → Run → Prop) (m : RunM α) (m' : RunM β) (Q : α → β → Prop) : Prop :=
  ∀ r r', R r r' →
    (∃ a s b s', m.Yields r a s ∧ m'.Yields r' b s' ∧ Q a b ∧ R s s') ∨ m.Fails r ∧ m'.Fails r'

namespace Lockstep

theorem mono {m : RunM α} {m' : RunM β} {Q Q' : α → β → Prop} (h : Lockstep R m m' Q)
    (hQ : ∀ a b, Q a b → Q' a b) :
    Lockstep R m m' Q' := by
  intro r r' hr
  rcases h r r' hr with ⟨a, s, b, s', ha, hb, hab, hs⟩ | hfail
  · exact .inl ⟨a, s, b, s', ha, hb, hQ a b hab, hs⟩
  · exact .inr hfail

theorem bind {m : RunM α} {m' : RunM β} {Q : α → β → Prop} {f : α → RunM γ} {f' : β → RunM δ}
    {Q' : γ → δ → Prop} (h : Lockstep R m m' Q) (hf : ∀ a b, Q a b → Lockstep R (f a) (f' b) Q') :
    Lockstep R (m >>= f) (m' >>= f') Q' := by
  intro r r' hr
  rcases h r r' hr with ⟨a, s, b, s', ha, hb, hab, hs⟩ | ⟨hfail, hfail'⟩
  · rcases hf a b hab s s' hs with ⟨c, t, d, t', hc, hd, hcd, ht⟩ | ⟨hfail, hfail'⟩
    · exact .inl ⟨c, t, d, t', yields_bind.2 ⟨a, s, ha, hc⟩, yields_bind.2 ⟨b, s', hb, hd⟩, hcd, ht⟩
    · exact .inr ⟨ha.fails_bind hfail, hb.fails_bind hfail'⟩
  · exact .inr ⟨hfail.bind f, hfail'.bind f'⟩

end Lockstep

/-- From states related by `R`, both computations succeed with states related by `S`, or both
fail. -/
def Leads (R S : Run → Run → Prop) (m m' : RunM Unit) : Prop :=
  ∀ r r', R r r' → (∃ s s', m.Yields r () s ∧ m'.Yields r' () s' ∧ S s s') ∨ m.Fails r ∧ m'.Fails r'

theorem Leads.bind {R S T : Run → Run → Prop} {m m' k k' : RunM Unit} (h : Leads R S m m')
    (hk : Leads S T k k') :
    Leads R T (m >>= fun _ => k) (m' >>= fun _ => k') := by
  intro r r' hr
  rcases h r r' hr with ⟨s, s', hs, hs', hS⟩ | ⟨hfail, hfail'⟩
  · rcases hk s s' hS with ⟨t, t', ht, ht', hT⟩ | ⟨hfail, hfail'⟩
    · exact .inl ⟨t, t', yields_bind.2 ⟨_, _, hs, ht⟩, yields_bind.2 ⟨_, _, hs', ht'⟩, hT⟩
    · exact .inr ⟨hs.fails_bind hfail, hs'.fails_bind hfail'⟩
  · exact .inr ⟨hfail.bind _, hfail'.bind _⟩

theorem lockstep_pure {Q : α → β → Prop} {a : α} {b : β} (h : Q a b) :
    Lockstep R (pure a) (pure b) Q :=
  fun r r' hr => .inl ⟨a, r, b, r', yields_pure.2 ⟨rfl, rfl⟩, yields_pure.2 ⟨rfl, rfl⟩, h, hr⟩

theorem lockstep_throw {Q : α → β → Prop} {e e' : RunError} : Lockstep R (throw e) (throw e') Q :=
  fun _ _ _ => .inr ⟨fun _ _ => not_yields_throw, fun _ _ => not_yields_throw⟩

theorem lockstep_get : Lockstep R get get R :=
  fun r r' hr => .inl ⟨r, r, r', r', yields_get.2 ⟨rfl, rfl⟩, yields_get.2 ⟨rfl, rfl⟩, hr, hr⟩

theorem lockstep_modify {f f' : Run → Run} (h : ∀ r r', R r r' → R (f r) (f' r')) :
    Lockstep R (modify f) (modify f') fun _ _ => True :=
  fun r r' hr => .inl ⟨⟨⟩, f r, ⟨⟩, f' r', yields_modify.2 rfl, yields_modify.2 rfl,
    trivial, h r r' hr⟩

theorem lockstep_need (f : α → β) (o : Option α) :
    Lockstep R (need o) (need (o.map f)) fun a b => b = f a := by
  cases o with
  | none => exact lockstep_throw
  | some a => exact lockstep_pure rfl

theorem lockstep_lift (x : Except RunError α) : Lockstep R (lift x) (lift x) Eq := by
  cases x with
  | error e => exact lockstep_throw
  | ok a => exact lockstep_pure rfl

theorem lockstep_operand (n : Node) (i : Nat) :
    Lockstep R (operand n i) (operand n i) fun a b => b = a ∧ a ∈ n.operands := by
  rw [operand]
  cases h : n.operands[i]? with
  | none => exact lockstep_throw
  | some a => exact lockstep_pure ⟨rfl, List.mem_of_getElem? h⟩

theorem lockstep_forM {f : α → RunM PUnit} {f' : β → RunM PUnit} {φ : α → β} {l : List α}
    (h : ∀ a ∈ l, Lockstep R (f a) (f' (φ a)) fun _ _ => True) :
    Lockstep R (l.forM f) ((l.map φ).forM f') fun _ _ => True := by
  induction l with
  | nil => exact lockstep_pure trivial
  | cons a l ih => exact (h a (by simp)).bind fun _ _ _ => ih fun b hb => h b (by simp [hb])

/-- Both steps pass the same check, or both fail. -/
theorem lockstep_guard {c : Prop} [Decidable c] {e e' : RunError} {k : γ → RunM α}
    {k' : δ → RunM β} {m : RunM α} {m' : RunM β} {Q : α → β → Prop} (h : ¬c → Lockstep R m m' Q) :
    Lockstep R (if c then throw e >>= k else m) (if c then throw e' >>= k' else m') Q := by
  split
  · exact (lockstep_throw (Q := fun _ _ => False)).bind fun _ _ hfalse => hfalse.elim
  · exact h ‹_›

end RunM

/-! ## Consumers under other names -/

/-- The setting with its consumers renamed. -/
def Setting.retarget (σ : NodeRef → NodeRef) (s : Setting) : Setting :=
  ⟨s.kind, s.fill, s.targets.map σ, s.demandedBy.map σ⟩

/-- The value with the consumers that rely on it renamed. -/
def PaddingValue.retarget (σ : NodeRef → NodeRef) (p : PaddingValue) : PaddingValue :=
  ⟨p.content, p.origin, p.targets.map σ⟩

/-- The action with its readers renamed. -/
def Action.retarget (σ : NodeRef → NodeRef) (b : Action) :
    Action := ⟨b.tensor, b.fill, b.targets.map σ⟩

section Retarget

variable {σ : NodeRef → NodeRef}

theorem map_insertLast (hσ : Function.Injective σ) (l : List NodeRef) (c : NodeRef) :
    (insertLast l c).map σ = insertLast (l.map σ) (σ c) := by
  rw [insertLast, insertLast]
  simp only [List.mem_map_of_injective hσ]
  split
  · rfl
  · rw [List.map_append, List.map_singleton]

theorem lastIndex?_map {α β : Type} (p : β → Bool) (f : α → β) (l : List α) :
    Entry.lastIndex? p (l.map f) = Entry.lastIndex? (fun a => p (f a)) l := by
  induction l with
  | nil => rfl
  | cons a l ih => rw [List.map_cons, Entry.lastIndex?, Entry.lastIndex?, ih]

@[simp] theorem Setting.retarget_id : Setting.retarget id = id := by
  funext s
  simp [retarget]

@[simp] theorem PaddingValue.retarget_id : PaddingValue.retarget id = id := by
  funext p
  simp [retarget]

@[simp] theorem Action.retarget_id : Action.retarget id = id := by
  funext b
  simp [retarget]

namespace Setting

@[simp] theorem isTargeted_retarget (s : Setting) : (s.retarget σ).isTargeted = s.isTargeted := by
  simp [isTargeted, retarget]

theorem retarget_addDemand (hσ : Function.Injective σ) (s : Setting)
    (c : Option NodeRef) (t : Bool) :
    (s.addDemand c t).retarget σ = (s.retarget σ).addDemand (c.map σ) t := by
  cases c with
  | none => rfl
  | some c =>
    rw [Option.map_some, addDemand, addDemand]
    simp only [retarget, List.mem_map_of_injective hσ]
    split
    · rfl
    · cases t <;> simp

end Setting

theorem PaddingValue.retarget_addTarget (hσ : Function.Injective σ) (p : PaddingValue)
    (c : Option NodeRef) :
    (p.addTarget c).retarget σ = (p.retarget σ).addTarget (c.map σ) := by
  cases c with
  | none => rfl
  | some c =>
    change PaddingValue.mk p.content p.origin ((insertLast p.targets c).map σ) = _
    rw [map_insertLast hσ]
    rfl

theorem PaddingValue.meetData_retarget (p : PaddingValue) :
    (p.retarget σ).meetData = p.meetData.retarget σ := by
  obtain ⟨content, origin, targets⟩ := p
  cases content <;> rfl

end Retarget

namespace Entry

/-- The second entry is the first one with consumers renamed, as far as padding and settings go. -/
structure Mirrors (σ : NodeRef → NodeRef) (e e' : Entry) : Prop where
  padding : e'.padding = e.padding.map (PaddingValue.retarget σ)
  settings : e'.settings = e.settings.map (Setting.retarget σ)

namespace Mirrors

variable {σ : NodeRef → NodeRef} {e e' : Entry}

section

variable (h : e.Mirrors σ e')

include h

theorem getElem?_settings (i : Nat) :
    e'.settings[i]? = e.settings[i]?.map (Setting.retarget σ) := by
  rw [h.settings, List.getElem?_map]

theorem modifySetting {f f' : Setting → Setting}
    (hf : ∀ s, (f s).retarget σ = f' (s.retarget σ)) (i : Nat) :
    (e.modifySetting i f).Mirrors σ (e'.modifySetting i f') where
  padding := h.padding
  settings := by
    change e'.settings.modify i f' = (e.settings.modify i f).map (Setting.retarget σ)
    refine List.ext_getElem? fun j => ?_
    rw [List.getElem?_modify, h.getElem?_settings, List.getElem?_map, List.getElem?_modify]
    cases e.settings[j]? with
    | none => rfl
    | some s => by_cases hij : i = j <;> simp [hij, hf]

theorem settingOf?_eq (fill : Fill) (t : Bool) : e'.settingOf? fill t = e.settingOf? fill t := by
  rw [settingOf?, settingOf?, h.settings, List.findIdx?_map]
  congr 1
  funext s
  rw [Function.comp_apply, Setting.isTargeted_retarget]
  rfl

end

section

variable (hσ : Function.Injective σ) (h : e.Mirrors σ e')

include hσ h

theorem addTarget (c : Option NodeRef) : (e.addTarget c).Mirrors σ (e'.addTarget (c.map σ)) where
  padding := by
    change e'.padding.map _ = (e.padding.map _).map _
    rw [h.padding, Option.map_map, Option.map_map]
    congr 1
    funext p
    exact (PaddingValue.retarget_addTarget hσ p c).symm
  settings := h.settings

theorem lastDemanded?_eq (c : NodeRef) : RunM.lastDemanded? e' (σ c) = RunM.lastDemanded? e c := by
  rw [RunM.lastDemanded?, RunM.lastDemanded?, h.settings, lastIndex?_map]
  congr 1
  funext s
  simp only [Setting.retarget, List.mem_map_of_injective hσ]

theorem source?_eq (c : Option NodeRef) : e'.source? (c.map σ) = e.source? c := by
  have hrequired : ((c.map σ).bind fun c =>
      lastIndex? (fun s => s.fill.isConstant && decide (c ∈ s.demandedBy)) e'.settings) =
        c.bind fun c => lastIndex?
          (fun s => s.fill.isConstant && decide (c ∈ s.demandedBy)) e.settings := by
    cases c with
    | none => rfl
    | some c =>
      rw [Option.map_some, Option.bind_some, Option.bind_some, h.settings, lastIndex?_map]
      simp only [Setting.retarget, List.mem_map_of_injective hσ]
  have hgeneral : lastIndex? (fun s => s.fill.isConstant && !s.isTargeted) e'.settings =
      lastIndex? (fun s => s.fill.isConstant && !s.isTargeted) e.settings := by
    rw [h.settings, lastIndex?_map]
    simp only [Setting.isTargeted_retarget]
    rfl
  rw [source?, source?, hrequired, hgeneral]

theorem read_eq (x : NodeRef) (c : Option NodeRef) :
    e'.read x (c.map σ) = (e.read x c).map (PaddingValue.retarget σ) := by
  rw [read, read, h.source?_eq hσ]
  cases e.source? c with
  | none => exact h.padding
  | some i =>
    change e'.settings[i]?.map _ = (e.settings[i]?.map _).map _
    rw [h.getElem?_settings, Option.map_map, Option.map_map]
    rfl

theorem rely (c : Option NodeRef) : (e.rely c).Mirrors σ (e'.rely (c.map σ)) := by
  rw [Entry.rely, Entry.rely, h.source?_eq hσ]
  cases e.source? c with
  | none => exact h.addTarget hσ c
  | some i =>
    refine h.modifySetting (fun s => ?_) i
    rw [Setting.retarget_addDemand hσ, Setting.isTargeted_retarget]

theorem write (c : Option NodeRef) (fill : Fill) (t : Bool) :
    (e.write c fill t).Mirrors σ (e'.write (c.map σ) fill t) := by
  rw [Entry.write, Entry.write, h.settingOf?_eq]
  cases e.settingOf? fill t with
  | some i =>
    refine h.modifySetting (fun s => ?_) i
    rw [Setting.retarget_addDemand hσ, Setting.isTargeted_retarget]
  | none =>
    refine ⟨h.padding, ?_⟩
    change e'.settings ++ [newSetting (c.map σ) fill t] =
      (e.settings ++ [newSetting c fill t]).map _
    rw [List.map_append, ← h.settings, List.map_singleton, newSetting, newSetting,
      Setting.retarget_addDemand hσ]
    rfl

end

end Mirrors
end Entry

end LanePadding
