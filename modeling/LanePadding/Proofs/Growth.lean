import Mathlib.Data.List.Basic
import Mathlib.Data.List.Induction
import Mathlib.Logic.Relation
import LanePadding.Proofs.Readings

/-!
# How the state of an analysis grows

Whatever an analysis does on behalf of a consumer, it only adds: the consumer is noted on padding
values and on settings, and new settings are made for it at the end of the list.  `Run.Grown` says
so for a whole state, and every invariant of an analysis is derived from it.

## What is here

* `SettingsGrow` — what becomes of the settings of one tensor: the old ones stay in place, each
  possibly with one more demander, and the new ones are demanded by that consumer alone.
* `SettingsGrow.fillFor_eq` — others read the same constants as before, provided the new settings
  are targeted.
* `Run.Emits` — the emissions on a tensor are its settings, in order.
* `Run.Update` — a single change of one tensor on behalf of a consumer, and `Entry.Grows`, what it
  does to the entry of that tensor.
* `Run.Grown` — the state after any number of updates on behalf of one consumer, with what they have
  in common; it is reflexive and transitive, and `Run.Update.grown` shows it of a single one.
-/

set_option autoImplicit false

namespace LanePadding

section Modify

variable {α : Type} {f : α → α} {l : List α} {i : Nat}

theorem mem_modify {a : α} (h : a ∈ l.modify i f) : a ∈ l ∨ ∃ b, l[i]? = some b ∧ a = f b := by
  obtain ⟨j, hj⟩ := List.mem_iff_getElem?.1 h
  rw [List.getElem?_modify] at hj
  split at hj
  · rename_i hij
    subst hij
    obtain ⟨b, hb, rfl⟩ := Option.map_eq_some_iff.1 hj
    exact .inr ⟨b, hb, rfl⟩
  · exact .inl (List.mem_of_getElem? (by simpa using hj))

theorem mem_modify_of_getElem? {a : α} (h : l[i]? = some a) : f a ∈ l.modify i f := by
  refine List.mem_of_getElem? (i := i) ?_
  rw [List.getElem?_modify, h]
  simp

end Modify

/-! ## Settings with one more demander -/

namespace Setting

/-- The setting is as it was, or the consumer joined it. -/
def Joined (c : Option NodeRef) (s s' : Setting) : Prop := s' = s ∨ s' = s.addDemand c s.isTargeted

variable {c : Option NodeRef} {s s' s'' : Setting}

theorem Joined.fill_eq (h : s.Joined c s') : s'.fill = s.fill := by
  rcases h with rfl | rfl
  · rfl
  · exact fill_addDemand ..

theorem Joined.constant?_eq (h : s.Joined c s') : s'.constant? = s.constant? := by
  rw [constant?, h.fill_eq, constant?]

theorem Joined.isTargeted_eq (h : s.Joined c s') : s'.isTargeted = s.isTargeted := by
  rcases h with rfl | rfl
  · rfl
  · exact isTargeted_addDemand s c

theorem Joined.targets_eq_nil_iff (h : s.Joined c s') : s'.targets = [] ↔ s.targets = [] := by
  have htargeted : ∀ u : Setting, u.targets = [] ↔ u.isTargeted = false :=
    fun u => by simp [isTargeted]
  rw [htargeted, htargeted, h.isTargeted_eq]

theorem Joined.general?_eq (h : s.Joined c s') : s'.general? = s.general? := by
  rw [general?, h.isTargeted_eq, h.constant?_eq, general?]

theorem Joined.mem_demandedBy (h : s.Joined c s') {c' : NodeRef} (hc' : c' ∈ s'.demandedBy) :
    c' ∈ s.demandedBy ∨ c = some c' := by
  rcases h with rfl | rfl
  · exact .inl hc'
  · exact mem_demandedBy_addDemand.1 hc'

theorem Joined.mem_demandedBy_of_mem (h : s.Joined c s') {c' : NodeRef} (hc' : c' ∈ s.demandedBy) :
    c' ∈ s'.demandedBy := by
  rcases h with rfl | rfl
  · exact hc'
  · exact mem_demandedBy_addDemand.2 (.inl hc')

theorem Joined.demanded?_eq {c' : Option NodeRef} (h : s.Joined c s') (hc : c ≠ c') :
    s'.demanded? c' = s.demanded? c' := by
  rcases h with rfl | rfl
  · rfl
  · exact demanded?_addDemand hc s _

/-- Joining twice is joining once. -/
theorem addDemand_addDemand (s : Setting) (c : Option NodeRef) (t t' : Bool) :
    (s.addDemand c t).addDemand c t' = s.addDemand c t := by
  cases c with
  | none => rfl
  | some c =>
    have hmem : c ∈ (s.addDemand (some c) t).demandedBy := mem_demandedBy_addDemand.2 (.inr rfl)
    generalize s.addDemand (some c) t = u at hmem
    rw [addDemand, if_pos hmem]

theorem Joined.trans (h : s.Joined c s') (h' : s'.Joined c s'') : s.Joined c s'' := by
  rcases h with rfl | rfl
  · exact h'
  · rcases h' with rfl | rfl
    · exact .inr rfl
    · exact .inr (addDemand_addDemand ..)

/-- The targets of a setting are all of its demanders, unless it is unconditional. -/
def TargetsDemanders (s : Setting) : Prop := s.targets = [] ∨ s.targets = s.demandedBy

theorem TargetsDemanders.mem_demandedBy (hs : s.TargetsDemanders) {n : NodeRef}
    (hn : n ∈ s.targets) :
    n ∈ s.demandedBy := by
  rcases hs with hnil | hall
  · simp [hnil] at hn
  · exact hall ▸ hn

theorem TargetsDemanders.of_joined (hs : s.TargetsDemanders) (h : s.Joined c s') :
    s'.TargetsDemanders := by
  rcases h with rfl | rfl
  · exact hs
  · cases c with
    | none => exact hs
    | some c =>
      rw [addDemand]
      split
      · exact hs
      · cases hnil : s.targets with
        | nil => exact .inl (by simp [isTargeted, hnil])
        | cons a l =>
          have hall : s.targets = s.demandedBy := hs.resolve_left (by simp [hnil])
          exact .inr (by simp [isTargeted, ← hall, hnil])

end Setting

/-! ## Settings of one tensor -/

/-- The settings after a consumer made some of them its own, with new ones at the end, targeted if
`t`. -/
inductive SettingsGrow (c : Option NodeRef) (t : Bool) : List Setting → List Setting → Prop
  | new {added : List Setting} (h : ∀ s ∈ added, ∃ fill, s = Entry.newSetting c fill t) :
      SettingsGrow c t [] added
  | old {s s' : Setting} {l l' : List Setting} (hs : s.Joined c s') (h : SettingsGrow c t l l') :
      SettingsGrow c t (s :: l) (s' :: l')

namespace SettingsGrow

variable {c : Option NodeRef} {t : Bool} {l l' l'' : List Setting}

theorem refl (c : Option NodeRef) (t : Bool) (l : List Setting) : SettingsGrow c t l l := by
  induction l with
  | nil => exact .new (by simp)
  | cons s l ih => exact .old (.inl rfl) ih

theorem all_new (h : SettingsGrow c t l l') (hl : ∀ s ∈ l, ∃ fill, s = Entry.newSetting c fill t) :
    ∀ s ∈ l', ∃ fill, s = Entry.newSetting c fill t := by
  induction h with
  | new hadded => exact hadded
  | @old s s' l l' hs _ ih =>
    have hnew : ∃ fill, s' = Entry.newSetting c fill t := by
      obtain ⟨fill, rfl⟩ := hl s (by simp)
      rcases hs with rfl | rfl
      · exact ⟨fill, rfl⟩
      · exact ⟨fill, Setting.addDemand_addDemand ..⟩
    intro u hu
    rcases List.mem_cons.1 hu with rfl | hu
    · exact hnew
    · exact ih (fun v hv => hl v (by simp [hv])) u hu

theorem trans (h : SettingsGrow c t l l') (h' : SettingsGrow c t l' l'') :
    SettingsGrow c t l l'' := by
  induction h generalizing l'' with
  | new hadded => exact .new (h'.all_new hadded)
  | old hs _ ih =>
    cases h' with
    | old hs' hrest => exact .old (hs.trans hs') (ih hrest)

theorem join (c : Option NodeRef) (t : Bool) (l : List Setting) (i : Nat) :
    SettingsGrow c t l (l.modify i fun s => s.addDemand c s.isTargeted) := by
  induction l generalizing i with
  | nil =>
    rw [List.modify_nil]
    exact .refl c t []
  | cons s l ih =>
    cases i with
    | zero => exact .old (.inr rfl) (.refl c t l)
    | succ i => exact .old (.inl rfl) (ih i)

theorem append (c : Option NodeRef) (t : Bool) (l : List Setting) (fill : Fill) :
    SettingsGrow c t l (l ++ [Entry.newSetting c fill t]) := by
  induction l with
  | nil => exact .new fun s hs => ⟨fill, by simpa using hs⟩
  | cons s l ih => exact .old (.inl rfl) ih

/-- Old settings stay where they are, and new ones come after them. -/
theorem getElem?_cases (h : SettingsGrow c t l l') {i : Nat} {s' : Setting}
    (hs' : l'[i]? = some s') :
    (∃ s, l[i]? = some s ∧ s.Joined c s') ∨ l.length ≤ i ∧ ∃ fill, s' =
      Entry.newSetting c fill t := by
  induction h generalizing i with
  | new hadded => exact .inr ⟨Nat.zero_le i, hadded s' (List.mem_of_getElem? hs')⟩
  | @old s u l l' hs _ ih =>
    cases i with
    | zero => exact .inl ⟨s, rfl, Option.some.inj hs' ▸ hs⟩
    | succ i => exact (ih hs').imp_right fun ⟨hi, hnew⟩ => ⟨Nat.succ_le_succ hi, hnew⟩

/-- Every setting is an old one, possibly joined, or a new one. -/
theorem mem_cases (h : SettingsGrow c t l l') {s' : Setting} (hs' : s' ∈ l') :
    (∃ s ∈ l, s.Joined c s') ∨ ∃ fill, s' = Entry.newSetting c fill t := by
  obtain ⟨i, hi⟩ := List.mem_iff_getElem?.1 hs'
  rcases h.getElem?_cases hi with ⟨s, hs, hjoined⟩ | ⟨-, hnew⟩
  · exact .inl ⟨s, List.mem_of_getElem? hs, hjoined⟩
  · exact .inr hnew

/-- No setting is lost. -/
theorem exists_joined (h : SettingsGrow c t l l') {s : Setting} (hs : s ∈ l) :
    ∃ s' ∈ l', s.Joined c s' := by
  induction h with
  | new _ => simp at hs
  | @old u u' l l' hu _ ih =>
    rcases List.mem_cons.1 hs with rfl | hs
    · exact ⟨u', by simp, hu⟩
    · obtain ⟨s', hs', hjoined⟩ := ih hs
      exact ⟨s', by simp [hs'], hjoined⟩

/-- A search that does not see demands and new settings finds the same. -/
theorem findSome?_reverse_eq {g : Setting → Option Scalar} (h : SettingsGrow c t l l')
    (hjoined : ∀ s s' : Setting, s.Joined c s' → g s' = g s)
    (hnew : ∀ fill, g (Entry.newSetting c fill t) = none) :
    l'.reverse.findSome? g = l.reverse.findSome? g := by
  induction h with
  | @new added hadded =>
    rw [List.reverse_nil, List.findSome?_nil, List.findSome?_eq_none_iff]
    intro s hs
    obtain ⟨fill, rfl⟩ := hadded s (List.mem_reverse.1 hs)
    exact hnew fill
  | @old s s' l l' hs _ ih =>
    rw [List.reverse_cons, List.reverse_cons, List.findSome?_append, List.findSome?_append, ih,
      List.findSome?_singleton, List.findSome?_singleton, hjoined s s' hs]

/-- Others read the same constants as before if the new settings are targeted. -/
theorem fillFor_eq {c : NodeRef} {c' : Option NodeRef} (h : SettingsGrow (some c) true l l')
    (hc : some c ≠ c') : fillFor l' c' = fillFor l c' := by
  have htargeted : ∀ fill, (Entry.newSetting (some c) fill true).isTargeted = true := fun fill => by
    rw [Setting.isTargeted, Entry.targets_newSetting]
    rfl
  rw [fillFor, fillFor, h.findSome?_reverse_eq fun s s' hs => hs.demanded?_eq hc,
    h.findSome?_reverse_eq fun s s' hs => hs.general?_eq]
  · intro fill
    rw [Setting.general?, if_pos (htargeted fill)]
  · intro fill
    rw [Setting.demanded?, if_neg]
    rintro ⟨c₀, rfl, hc₀⟩
    exact hc (Entry.mem_demandedBy_newSetting.1 hc₀)

end SettingsGrow

/-! ## Emissions -/

/-- A list is read off its positions. -/
theorem filterMap_getElem?_range {α β : Type} (f : α → β) (l : List α) :
    ((List.range l.length).filterMap fun i => l[i]?.map f) = l.map f := by
  induction l using List.reverseRecOn with
  | nil => rfl
  | append_singleton l a ih =>
    have hold : ((List.range l.length).filterMap fun i => (l ++ [a])[i]?.map f) = l.map f := by
      rw [← ih]
      refine List.filterMap_congr fun i hi => ?_
      rw [List.getElem?_append_left (List.mem_range.1 hi)]
    rw [List.length_append, List.length_singleton, List.range_succ, List.filterMap_append, hold]
    simp

namespace Run

/-- The emissions on the tensor are its settings, in the order in which they were made. -/
def Emits (r : Run) (x : NodeRef) : Prop :=
  r.emissions.filter (·.tensor = x) = (List.range (r.entry x).settings.length).map fun i => ⟨x, i⟩

/-- The actions on a tensor are its settings. -/
theorem Emits.actions_filter {r : Run} {x : NodeRef} (h : r.Emits x) :
    r.actions.filter (·.tensor = x) =
      (r.entry x).settings.map fun s => (⟨x, s.fill, s.targets⟩ : Action) := by
  have hfilter : r.actions.filter (·.tensor = x) =
      (r.emissions.filter (·.tensor = x)).filterMap fun m =>
        (r.entry m.tensor).settings[m.setting]?.map fun s =>
          (⟨m.tensor, s.fill, s.targets⟩ : Action) := by
    rw [actions, List.filter_filterMap, List.filterMap_filter]
    refine List.filterMap_congr fun m _ => ?_
    by_cases hm : m.tensor = x
    · subst hm
      cases (r.entry m.tensor).settings[m.setting]? <;> simp
    · cases (r.entry m.tensor).settings[m.setting]? <;> simp [hm]
  rw [hfilter, h, List.filterMap_map]
  exact filterMap_getElem?_range (fun s => (⟨x, s.fill, s.targets⟩ : Action)) (r.entry x).settings

theorem Emits.mem_actions_iff {r : Run} {x : NodeRef} (h : r.Emits x) {b : Action} :
    b ∈ r.actions ∧ b.tensor = x ↔ ∃ s ∈ (r.entry x).settings,
      (⟨x, s.fill, s.targets⟩ : Action) = b := by
  rw [← List.mem_map, ← h.actions_filter, List.mem_filter, decide_eq_true_iff]

end Run

/-! ## Entries -/

/-- What becomes of an entry when something is done on behalf of a consumer: the consumer may be
noted on the padding value, and the settings grow. -/
structure Entry.Grows (c : Option NodeRef) (t : Bool) (e e' : Entry) : Prop where
  consumers : e'.consumers = e.consumers
  readers : e'.readers = e.readers
  padding : e'.padding = e.padding ∨ e'.padding = e.padding.map fun p => p.addTarget c
  settings : SettingsGrow c t e.settings e'.settings

namespace Entry

variable {c : Option NodeRef} {t : Bool} {e e' : Entry}

theorem clone_addTarget (p : PaddingValue) (c : Option NodeRef) :
    (p.addTarget c).clone = p.clone := by
  cases c <;> rfl

/-- The padding value stays the same, up to the consumers that rely on it. -/
theorem Grows.map_clone (h : e.Grows c t e') :
    e'.padding.map PaddingValue.clone = e.padding.map PaddingValue.clone := by
  rcases h.padding with hsame | hnoted
  · rw [hsame]
  · rw [hnoted, Option.map_map]
    congr 1
    funext p
    exact clone_addTarget p c

theorem grows_rely (e : Entry) (c : Option NodeRef) (t : Bool) : e.Grows c t (e.rely c) where
  consumers := consumers_rely e c
  readers := readers_rely e c
  padding := by
    rw [rely]
    split
    · exact .inl rfl
    · exact .inr rfl
  settings := by
    rw [rely]
    split
    · exact .join _ _ _ _
    · exact .refl _ _ _

theorem grows_write (e : Entry) (c : Option NodeRef) (fill : Fill) (t : Bool) :
    e.Grows c t (e.write c fill t) where
  consumers := consumers_write e c fill t
  readers := readers_write e c fill t
  padding := .inl (padding_write e c fill t)
  settings := by
    rw [write]
    split
    · exact .join _ _ _ _
    · exact .append _ _ _ fill

theorem length_rely (e : Entry) (c : Option NodeRef) :
    (e.rely c).settings.length = e.settings.length := by
  rw [rely]
  split
  · exact List.length_modify ..
  · rfl

end Entry

/-! ## Who is noted -/

theorem PaddingValue.mem_targets_addTarget {p : PaddingValue} {c : Option NodeRef} {n : NodeRef} :
    n ∈ (p.addTarget c).targets ↔ n ∈ p.targets ∨ c = some n := by
  cases c with
  | none => simp [addTarget]
  | some c =>
    change n ∈ insertLast p.targets c ↔ _
    rw [insertLast, Option.some.injEq]
    split
    · rename_i hmem
      exact ⟨.inl, fun h => h.elim id fun hcn => hcn ▸ hmem⟩
    · rw [List.mem_append, List.mem_singleton, eq_comm]

namespace Entry

/-- The consumer is noted in the entry: it demanded a setting, or relies on the tensor's own padding
value. -/
def Notes (e : Entry) (n : NodeRef) : Prop :=
  (∃ s ∈ e.settings, n ∈ s.demandedBy) ∨ ∃ p, e.padding = some p ∧ n ∈ p.targets

variable {c : Option NodeRef} {t : Bool} {e e' : Entry} {n : NodeRef}

/-- Only the consumer on whose behalf an entry grows is noted in it. -/
theorem Grows.notes (h : e.Grows c t e') (hn : e'.Notes n) : e.Notes n ∨ c = some n := by
  rcases hn with ⟨s', hs', hmem⟩ | ⟨p', hp', hmem⟩
  · rcases h.settings.mem_cases hs' with ⟨s, hs, hjoined⟩ | ⟨fill, rfl⟩
    · exact (hjoined.mem_demandedBy hmem).imp_left fun hmem => .inl ⟨s, hs, hmem⟩
    · exact .inr (mem_demandedBy_newSetting.1 hmem)
  · rcases h.padding with hsame | hnoted
    · exact .inl (.inr ⟨p', hsame ▸ hp', hmem⟩)
    · rw [hp'] at hnoted
      obtain ⟨p, hp, rfl⟩ := Option.map_eq_some_iff.1 hnoted.symm
      exact (PaddingValue.mem_targets_addTarget.1 hmem).imp_left fun hmem => .inr ⟨p, hp, hmem⟩

/-- Whoever is noted stays noted. -/
theorem Grows.notes_of_notes (h : e.Grows c t e') (hn : e.Notes n) : e'.Notes n := by
  rcases hn with ⟨s, hs, hmem⟩ | ⟨p, hp, hmem⟩
  · obtain ⟨s', hs', hjoined⟩ := h.settings.exists_joined hs
    exact .inl ⟨s', hs', hjoined.mem_demandedBy_of_mem hmem⟩
  · rcases h.padding with hsame | hnoted
    · exact .inr ⟨p, hsame ▸ hp, hmem⟩
    · exact .inr ⟨p.addTarget c, by rw [hnoted, hp, Option.map_some],
        PaddingValue.mem_targets_addTarget.2 (.inl hmem)⟩

theorem notes_addTarget {p : PaddingValue} (hp : e.padding = some p) :
    (e.addTarget c).Notes n ↔ e.Notes n ∨ c = some n := by
  rw [Notes, Notes, addTarget, hp]
  simp only [Option.map_some, Option.some.injEq, exists_eq_left',
    PaddingValue.mem_targets_addTarget, or_assoc]

/-- Who relies on what it reads is noted there. -/
theorem notes_rely {x : NodeRef} {p : PaddingValue} (h : e.read x (some n) = some p) :
    (e.rely (some n)).Notes n := by
  rw [read] at h
  rw [rely]
  split at h
  · obtain ⟨s, hs, -⟩ := Option.map_eq_some_iff.1 h
    exact .inl ⟨_, mem_modify_of_getElem? hs, Setting.mem_demandedBy_addDemand.2 (.inr rfl)⟩
  · exact (notes_addTarget h).2 (.inr rfl)

/-- Who demands a fill is noted on it. -/
theorem notes_write (e : Entry) (n : NodeRef) (fill : Fill) (t : Bool) :
    (e.write (some n) fill t).Notes n := by
  rw [write]
  split
  · rename_i i hi
    obtain ⟨s, hs, -⟩ := exists_of_settingOf? hi
    exact .inl ⟨_, mem_modify_of_getElem? hs, Setting.mem_demandedBy_addDemand.2 (.inr rfl)⟩
  · exact .inl ⟨_, List.mem_append_right _ (List.mem_singleton_self _),
      mem_demandedBy_newSetting.2 rfl⟩

end Entry

namespace Run

/-! ## One change -/

/-- One change of the tensor `x` on behalf of a consumer: it relies on what it reads already, or it
demands a fill, for itself only if `t`. -/
inductive Update (w : Workspace) (c : Option NodeRef) (x : NodeRef) (t : Bool) (r : Run) :
    Run → Prop
  | rely (hsize : x.index < r.entries.size) : Update w c x t r (r.modifyEntry x fun e => e.rely c)
  | write (hsize : x.index < r.entries.size) (fill : Fill)
      (hfill : ∀ v, fill = .constant v → v.dtype = (w.node x).dtype) : Update w c x t r
      (r.write c x fill t)

section Update

variable {w : Workspace} {c : Option NodeRef} {x : NodeRef} {t : Bool} {r r' : Run}

theorem entry_congr (r : Run) {x y : NodeRef} (h : x.index = y.index) : r.entry x = r.entry y := by
  rw [entry, entry, h]

theorem Update.size (h : Update w c x t r r') : r'.entries.size = r.entries.size := by
  cases h with
  | rely _ => exact size_modifyEntry ..
  | write _ fill _ => exact size_write ..

theorem Update.entry_of_ne (h : Update w c x t r r') {y : NodeRef} (hy : x.index ≠ y.index) :
    r'.entry y = r.entry y := by
  cases h with
  | rely hsize => rw [entry_modifyEntry hsize, if_neg hy]
  | write hsize fill _ => rw [entry_write hsize, if_neg hy]

theorem Update.grows (h : Update w c x t r r') : (r.entry x).Grows c t (r'.entry x) := by
  cases h with
  | rely hsize =>
    rw [entry_modifyEntry hsize, if_pos rfl]
    exact Entry.grows_rely ..
  | write hsize fill _ =>
    rw [entry_write hsize, if_pos rfl]
    exact Entry.grows_write ..

/-- What holds between the old and the new entry of the tensor holds of all entries. -/
theorem Update.forall_entry (h : Update w c x t r r') {P : Entry → Entry → Prop}
    (hP : P (r.entry x) (r'.entry x)) (hrefl : ∀ e, P e e) (y : NodeRef) :
    P (r.entry y) (r'.entry y) := by
  by_cases hy : x.index = y.index
  · rwa [← entry_congr r hy, ← entry_congr r' hy]
  · rw [h.entry_of_ne hy]
    exact hrefl _

theorem Update.notes {y n : NodeRef} (h : Update w c x t r r') (hn : (r'.entry y).Notes n) :
    (r.entry y).Notes n ∨ x.index = y.index ∧ c = some n := by
  by_cases hy : x.index = y.index
  · have hgrows : (r.entry y).Grows c t (r'.entry y) :=
      entry_congr r hy ▸ entry_congr r' hy ▸ h.grows
    exact (hgrows.notes hn).imp_right fun hc => ⟨hy, hc⟩
  · rw [h.entry_of_ne hy] at hn
    exact .inl hn

theorem Update.notes_of_notes {y n : NodeRef} (h : Update w c x t r r') (hn : (r.entry y).Notes n) :
    (r'.entry y).Notes n :=
  h.forall_entry (P := fun e e' => e.Notes n → e'.Notes n) h.grows.notes_of_notes (fun _ => id) y hn

/-- The change notes its consumer on the tensor and nobody else. -/
theorem Update.notes_iff {n y : NodeRef} (h : Update w (some n) x t r r')
    (hnoted : (r'.entry x).Notes n) (hy : x.graph = y.graph) :
    (r'.entry y).Notes n ↔ (r.entry y).Notes n ∨ y = x := by
  refine ⟨fun hn => (h.notes hn).imp_right fun hindex => ?_, ?_⟩
  · cases x; cases y; simp_all
  · rintro (hn | rfl)
    · exact h.notes_of_notes hn
    · exact hnoted

/-- A new setting is emitted. -/
theorem Update.emissions (h : Update w c x t r r') :
    r'.emissions = r.emissions ∧ (r'.entry x).settings.length = (r.entry x).settings.length ∨
      r'.emissions = r.emissions ++ [⟨x, (r.entry x).settings.length⟩] ∧
        (r'.entry x).settings.length = (r.entry x).settings.length + 1 := by
  cases h with
  | rely hsize =>
    refine .inl ⟨rfl, ?_⟩
    rw [entry_modifyEntry hsize, if_pos rfl, Entry.length_rely]
  | write hsize fill _ =>
    rw [entry_write hsize, if_pos rfl, emissions_write, newEmissions, Entry.write]
    cases (r.entry x).settingOf? fill t with
    | some i => exact .inl ⟨List.append_nil _, List.length_modify ..⟩
    | none => exact .inr ⟨rfl, List.length_append ..⟩

theorem Update.emits (h : Update w c x t r r') {y : NodeRef} (hy : y.graph = x.graph)
    (hemits : r.Emits y) :
    r'.Emits y := by
  rw [Emits] at hemits ⊢
  by_cases hxy : x = y
  · subst hxy
    rcases h.emissions with ⟨hsame, hlength⟩ | ⟨hnew, hlength⟩
    · rw [hsame, hlength, hemits]
    · rw [hnew, hlength, List.filter_append, hemits, List.range_succ, List.map_append]
      simp
  · have hindex : x.index ≠ y.index := fun h => hxy (by cases x; cases y; simp_all)
    rw [h.entry_of_ne hindex, ← hemits]
    rcases h.emissions with ⟨hsame, -⟩ | ⟨hnew, -⟩
    · rw [hsame]
    · rw [hnew, List.filter_append]
      simp [hxy]

end Update

/-! ## States -/

/-- A change on behalf of a consumer of tensors in `T`, all of the graph `g`.  A fill is for all
readers of the tensor if there is only one. -/
def Note (w : Workspace) (g : Nat) (c : Option NodeRef) (T : NodeRef → Prop) (r r' : Run) : Prop :=
  ∃ x, T x ∧ x.graph = g ∧ Update w c x (decide (1 < (r.entry x).readers)) r r'

/-- The state after some changes on behalf of a consumer of tensors in `T`, all of the graph `g`. -/
structure Grown (w : Workspace) (g : Nat) (c : Option NodeRef) (T : NodeRef → Prop) (r r' : Run) :
    Prop where
  notes : Relation.ReflTransGen (Note w g c T) r r'
  size : r'.entries.size = r.entries.size
  consumers : ∀ x, (r'.entry x).consumers = (r.entry x).consumers
  readers : ∀ x, (r'.entry x).readers = (r.entry x).readers
  padding : ∀ x, (r'.entry x).padding.map PaddingValue.clone =
    (r.entry x).padding.map PaddingValue.clone
  settings : ∀ x, SettingsGrow c (decide (1 < (r.entry x).readers)) (r.entry x).settings
    (r'.entry x).settings
  untouched : ∀ x, x.graph = g → ¬T x → r'.entry x = r.entry x
  emits : ∀ x, x.graph = g → r.Emits x → r'.Emits x

variable {w : Workspace} {g : Nat} {c : Option NodeRef} {T : NodeRef → Prop} {r r' r'' : Run}

theorem Grown.refl (w : Workspace) (g : Nat) (c : Option NodeRef) (T : NodeRef → Prop) (r : Run) :
    Grown w g c T r r where
  notes := .refl
  size := rfl
  consumers _ := rfl
  readers _ := rfl
  padding _ := rfl
  settings _ := .refl _ _ _
  untouched _ _ _ := rfl
  emits _ _ h := h

theorem Grown.trans (h : Grown w g c T r r') (h' : Grown w g c T r' r'') : Grown w g c T r r'' where
  notes := h.notes.trans h'.notes
  size := h'.size.trans h.size
  consumers x := (h'.consumers x).trans (h.consumers x)
  readers x := (h'.readers x).trans (h.readers x)
  padding x := (h'.padding x).trans (h.padding x)
  settings x := (h.settings x).trans (h.readers x ▸ h'.settings x)
  untouched x hx hT := (h'.untouched x hx hT).trans (h.untouched x hx hT)
  emits x hx hr := h'.emits x hx (h.emits x hx hr)

/-- **One change** of a tensor in `T`. -/
theorem Update.grown {x : NodeRef}
    (h : Update w c x (decide (1 < (r.entry x).readers)) r r') (hT : T x) (hx : x.graph = g) :
    Grown w g c T r r' where
  notes := .single ⟨x, hT, hx, h⟩
  size := h.size
  consumers := h.forall_entry
    (P := fun e e' => e'.consumers = e.consumers) h.grows.consumers fun _ => rfl
  readers := h.forall_entry (P := fun e e' => e'.readers = e.readers) h.grows.readers fun _ => rfl
  padding := h.forall_entry
    (P := fun e e' => e'.padding.map PaddingValue.clone = e.padding.map PaddingValue.clone)
    h.grows.map_clone fun _ => rfl
  settings := h.forall_entry
    (P := fun e e' => SettingsGrow c (decide (1 < e.readers)) e.settings e'.settings)
    h.grows.settings fun _ => .refl _ _ _
  untouched y hy hTy := by
    refine h.entry_of_ne fun hindex => hTy ?_
    obtain rfl : x = y := by cases x; cases y; simp_all
    exact hT
  emits y hy := h.emits (hy.trans hx.symm)

/-- Every state on the way is one that the state has grown to. -/
theorem grown_of_notes (h : Relation.ReflTransGen (Note w g c T) r r') : Grown w g c T r r' := by
  induction h with
  | refl => exact .refl ..
  | tail _ hnote ih =>
    obtain ⟨x, hT, hx, hupdate⟩ := hnote
    exact ih.trans (hupdate.grown hT hx)

/-! ## What others see -/

/-- A reading is the same, up to the consumers that rely on it, if both of its parts are. -/
theorem read_congr {x : NodeRef} {c : Option NodeRef}
    (hfill : fillFor (r'.entry x).settings c = fillFor (r.entry x).settings c)
    (hpadding : (r'.entry x).padding.map PaddingValue.clone =
      (r.entry x).padding.map PaddingValue.clone) :
    (r'.read x c).map PaddingValue.clone = (r.read x c).map PaddingValue.clone := by
  rw [read, read, Entry.read_eq, Entry.read_eq, hfill]
  cases fillFor (r.entry x).settings c with
  | some v => rfl
  | none => exact hpadding

/-- A consumer other than the one that acted reads the same constants, provided that it shares the
tensor with the other. -/
theorem Grown.fillFor_eq {c : NodeRef} {c' : Option NodeRef} (h : Grown w g (some c) T r r')
    (hc : some c ≠ c') {x : NodeRef} (hx : x.graph = g) (hshared : T x → 1 < (r.entry x).readers) :
    fillFor (r'.entry x).settings c' = fillFor (r.entry x).settings c' := by
  by_cases hT : T x
  · have hsettings := h.settings x
    rw [decide_eq_true (hshared hT)] at hsettings
    exact hsettings.fillFor_eq hc
  · rw [h.untouched x hx hT]

/-- Only the consumer on whose behalf the changes are made gets noted. -/
theorem Grown.notes_iff (h : Grown w g c T r r') {n : NodeRef} (hn : c ≠ some n) (x : NodeRef) :
    (r'.entry x).Notes n ↔ (r.entry x).Notes n := by
  have hnotes := h.notes
  clear h
  induction hnotes with
  | refl => rfl
  | tail _ hnote ih =>
    obtain ⟨y, -, -, hupdate⟩ := hnote
    refine Iff.trans ⟨fun h => (hupdate.notes h).resolve_right fun hnew => hn hnew.2, ?_⟩ ih
    exact hupdate.notes_of_notes

/-! ## Targets -/

/-- The targets of every setting are its demanders, unless it is unconditional. -/
def Tidy (r : Run) : Prop := ∀ x, ∀ s ∈ (r.entry x).settings, s.TargetsDemanders

theorem Grown.tidy (h : Grown w g c T r r') (hr : r.Tidy) : r'.Tidy := by
  intro x s' hs'
  rcases (h.settings x).mem_cases hs' with ⟨s, hs, hjoined⟩ | ⟨fill, rfl⟩
  · exact (hr x s hs).of_joined hjoined
  · cases c with
    | none => exact .inl rfl
    | some c =>
      rw [Setting.TargetsDemanders, Entry.targets_newSetting]
      split
      · exact .inr rfl
      · exact .inl rfl

end Run
end LanePadding
