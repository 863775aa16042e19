import LanePadding.Proofs.History
import LanePadding.Proofs.Typing

/-!
# The settings of a tensor

All changes of settings are of two kinds: a consumer joins a setting that is there, or a setting is
added behind the others.  This file collects what every such change keeps, so that it holds after
every single move of an analysis.  No two settings write the same fill for the same readers, nobody
demands a setting twice, and scalars have the element type of the tensor (`Run.Regular`).  And a
setting is never lost: it keeps its place and its fill, whoever demanded it goes on to demand it,
and it is for all readers or for some of them forever (`Run.Extends`).

## What is here

* `Entry.Distinct` — settings are told apart by fill and targeting.
* `Run.Regular`, `Run.Extends` — what all changes keep.
* `Run.Move.regular`, `Run.Passes.regular` — one move, and all moves together.
-/

set_option autoImplicit false

namespace LanePadding

/-! ## Fills that write the same -/

namespace Fill

variable {f f' : Fill}

theorem equal_refl (f : Fill) : f.equal f = true := by
  cases f with
  | constant v => exact Scalar.equal_refl v
  | position e => exact beq_self_eq_true e

theorem equal_symm (h : f.equal f' = true) : f'.equal f = true := by
  cases f <;> cases f' <;> simp only [equal, Bool.false_eq_true] at h ⊢
  · exact Scalar.equal_symm h
  · rwa [BEq.comm]

end Fill

/-! ## Settings told apart -/

theorem map_modify_eq {α β : Type} {f : α → α} {key : α → β} {l : List α} {i : Nat}
    (h : ∀ a ∈ l, key (f a) = key a) : (l.modify i f).map key = l.map key := by
  refine List.ext_getElem? fun j => ?_
  rw [List.getElem?_map, List.getElem?_map, List.getElem?_modify]
  by_cases hij : i = j
  · subst hij
    cases hl : l[i]? with
    | none => rfl
    | some a => simp [h a (List.mem_of_getElem? hl)]
  · simp [hij]

/-- No two settings write the same fill for the same readers, and nobody demands a setting twice. -/
structure Entry.Distinct (e : Entry) : Prop where
  fills : e.settings.Pairwise fun s s' =>
    ¬(s.fill.equal s'.fill = true ∧ s.isTargeted = s'.isTargeted)
  demanders : ∀ s ∈ e.settings, s.demandedBy.Nodup

theorem Setting.nodup_addDemand {s : Setting} (h : s.demandedBy.Nodup)
    (c : Option NodeRef) (t : Bool) :
    (s.addDemand c t).demandedBy.Nodup := by
  cases c with
  | none => exact h
  | some c =>
    rw [addDemand]
    split
    · exact h
    · rename_i hc
      exact List.nodup_append.2 ⟨h, by simp, fun a ha b hb hab => hc (by simp_all)⟩

namespace Entry

variable {e : Entry} {c : Option NodeRef} {t : Bool}

theorem Distinct.join (h : e.Distinct) (i : Nat) :
    (e.modifySetting i fun s => s.addDemand c s.isTargeted).Distinct where
  fills := by
    have hkeys := h.fills
    rw [← List.pairwise_map (f := fun s : Setting => (s.fill, s.isTargeted))
      (R := fun k k' => ¬(k.1.equal k'.1 = true ∧ k.2 = k'.2))] at hkeys ⊢
    rwa [modifySetting, map_modify_eq fun s _ => by
      rw [Setting.fill_addDemand, Setting.isTargeted_addDemand]]
  demanders s hs := by
    rcases mem_modify hs with hs | ⟨s₀, hs₀, rfl⟩
    · exact h.demanders s hs
    · exact Setting.nodup_addDemand (h.demanders s₀ (List.mem_of_getElem? hs₀)) c _

theorem Distinct.rely (h : e.Distinct) (c : Option NodeRef) : (e.rely c).Distinct := by
  rw [Entry.rely]
  split
  · exact h.join _
  · exact ⟨h.fills, h.demanders⟩

/-- What the graph output demands is for all readers. -/
theorem isTargeted_newSetting (hc : c = none → t = false) (fill : Fill) :
    (newSetting c fill t).isTargeted = t := by
  cases c with
  | none => rw [hc rfl]; rfl
  | some c => cases t <;> rfl

theorem Distinct.write (h : e.Distinct) (hc : c = none → t = false) (fill : Fill) :
    (e.write c fill t).Distinct := by
  rw [Entry.write]
  split
  · exact h.join _
  · rename_i hnone
    constructor
    case fills =>
      refine List.pairwise_append.2 ⟨h.fills, List.pairwise_singleton .., fun s hs s' hs' => ?_⟩
      obtain rfl := List.mem_singleton.1 hs'
      rw [fill_newSetting, isTargeted_newSetting hc]
      -- the setting would have been found
      simpa using List.findIdx?_eq_none_iff.1 hnone s hs
    case demanders =>
      intro s hs
      rcases List.mem_append.1 hs with hs | hs
      · exact h.demanders s hs
      · obtain rfl := List.mem_singleton.1 hs
        exact Setting.nodup_addDemand List.nodup_nil c t

/-- Two settings with the same fill and the same targeting are one. -/
theorem Distinct.eq_of_equal (h : e.Distinct) {i j : Nat} {s s' : Setting}
    (hs : e.settings[i]? = some s) (hs' : e.settings[j]? = some s')
    (hfill : s.fill.equal s'.fill = true) (htargeted : s.isTargeted = s'.isTargeted) :
    i = j := by
  obtain ⟨hi, rfl⟩ := List.getElem?_eq_some_iff.1 hs
  obtain ⟨hj, rfl⟩ := List.getElem?_eq_some_iff.1 hs'
  have hall := List.pairwise_iff_getElem.1 h.fills
  rcases Nat.lt_trichotomy i j with hij | hij | hij
  · exact absurd ⟨hfill, htargeted⟩ (hall i j hi hj hij)
  · exact hij
  · exact absurd ⟨Fill.equal_symm hfill, htargeted.symm⟩ (hall j i hj hi hij)

end Entry

/-! ## One move -/

/-- What every change of settings keeps. -/
structure Run.Regular (w : Workspace) (g : Nat) (nodes : List NodeRef) (r : Run) : Prop where
  distinct : ∀ x, (r.entry x).Distinct
  fills : ∀ x, x.graph = g → ∀ s ∈ (r.entry x).settings, ∀ v, s.constant? = some v →
    v.dtype = (w.node x).dtype
  emissions : ∀ m ∈ r.emissions, m.tensor ∈ nodes

/-- The setting as others joined it: it writes the same fill, for all readers or for some of them as
before. -/
structure Setting.Extends (s s' : Setting) : Prop where
  fill : s'.fill = s.fill
  targeted : s'.targets = [] ↔ s.targets = []
  targets : s.targets <+: s'.targets
  demandedBy : s.demandedBy <+: s'.demandedBy

/-- No setting is lost on the way from one state to the other, and all settings stay in their
places. -/
structure Run.Extends (r r' : Run) : Prop where
  settings : ∀ (x : NodeRef) (i : Nat) (s : Setting), (r.entry x).settings[i]? = some s →
    ∃ s' : Setting, (r'.entry x).settings[i]? = some s' ∧ s.Extends s'
  emissions : r.emissions <+: r'.emissions

theorem Setting.Extends.refl (s : Setting) : s.Extends s :=
  ⟨rfl, Iff.rfl, List.prefix_refl _, List.prefix_refl _⟩

theorem Setting.Extends.trans {s s' s'' : Setting} (h : s.Extends s') (h' : s'.Extends s'') :
    s.Extends s'' where
  fill := h'.fill.trans h.fill
  targeted := h'.targeted.trans h.targeted
  targets := h.targets.trans h'.targets
  demandedBy := h.demandedBy.trans h'.demandedBy

theorem Setting.Joined.extended {c : Option NodeRef} {s s' : Setting} (h : s.Joined c s') :
    s.Extends s' where
  fill := h.fill_eq
  targeted := h.targets_eq_nil_iff
  targets := by
    rcases h with rfl | rfl
    · exact List.prefix_refl _
    · cases c with
      | none => exact List.prefix_refl _
      | some c =>
        rw [addDemand]
        split
        · exact List.prefix_refl _
        · dsimp only
          split
          · exact List.prefix_append ..
          · exact List.prefix_refl _
  demandedBy := by
    rcases h with rfl | rfl
    · exact List.prefix_refl _
    · cases c with
      | none => exact List.prefix_refl _
      | some c =>
        rw [addDemand]
        split
        · exact List.prefix_refl _
        · exact List.prefix_append ..

theorem SettingsGrow.getElem?_joined {c : Option NodeRef} {t : Bool} {l l' : List Setting}
    (h : SettingsGrow c t l l') {i : Nat} {s : Setting} (hs : l[i]? = some s) :
    ∃ s', l'[i]? = some s' ∧ s.Joined c s' := by
  induction h generalizing i with
  | new _ => simp at hs
  | @old u u' l l' hu _ ih =>
    cases i with
    | zero => exact ⟨u', rfl, Option.some.inj hs ▸ hu⟩
    | succ i => exact ih hs

namespace Run

variable {w : Workspace} {engine : Engine} {g : Nat} {roots nodes outputs : List NodeRef}
  {P : Phase → Prop} {r r' r'' : Run}

theorem Extends.refl (r : Run) :
    r.Extends r := ⟨fun _ _ s hs => ⟨s, hs, .refl s⟩, List.prefix_refl _⟩

theorem Extends.trans (h : r.Extends r') (h' : r'.Extends r'') : r.Extends r'' where
  settings x i s hs := by
    obtain ⟨s', hs', hextends⟩ := h.settings x i s hs
    obtain ⟨s'', hs'', hextends'⟩ := h'.settings x i s' hs'
    exact ⟨s'', hs'', hextends.trans hextends'⟩
  emissions := h.emissions.trans h'.emissions

section Update

variable {c : Option NodeRef} {x : NodeRef} {t : Bool}

theorem Update.index_lt (h : Update w c x t r r') : x.index < r.entries.size := by
  cases h with
  | rely hsize => exact hsize
  | write hsize => exact hsize

theorem Update.distinct (h : Update w c x t r r') (hc : c = none → t = false)
    (hx : (r.entry x).Distinct) :
    (r'.entry x).Distinct := by
  cases h with
  | rely hsize =>
    rw [entry_modifyEntry hsize, if_pos rfl]
    exact hx.rely c
  | write hsize fill _ =>
    rw [entry_write hsize, if_pos rfl]
    exact hx.write hc fill

theorem Update.regular (h : Update w c x t r r') (hc : c = none → t = false) (hx : x.graph = g)
    (hmem : x ∈ nodes) (hr : r.Regular w g nodes) : r'.Regular w g nodes where
  distinct y := h.forall_entry (P := fun e e' => e.Distinct → e'.Distinct) (h.distinct hc)
    (fun _ he => he) y (hr.distinct y)
  fills y hy s' hs' v hv := by
    by_cases hxy : x = y
    · subst hxy
      rcases h.constant?_cases hs' hv with ⟨s, hs, hsv⟩ | hdtype
      · exact hr.fills x hy s hs v hsv
      · exact hdtype
    · rw [h.entry_of_ne (index_ne hx hy hxy)] at hs'
      exact hr.fills y hy s' hs' v hv
  emissions m hm := by
    rcases h.emissions with ⟨hsame, -⟩ | ⟨hnew, -⟩
    · exact hr.emissions m (hsame ▸ hm)
    · rw [hnew] at hm
      rcases List.mem_append.1 hm with hm | hm
      · exact hr.emissions m hm
      · exact List.mem_singleton.1 hm ▸ hmem

theorem Update.extended (h : Update w c x t r r') : r.Extends r' where
  settings y i s hs := by
    have hjoined := h.forall_entry (P := fun e e' => e.settings[i]? = some s →
      ∃ s' : Setting, e'.settings[i]? = some s' ∧ s.Extends s') ?_ (fun _ hs =>
        ⟨s, hs, .refl s⟩) y hs
    · exact hjoined
    · intro hs
      obtain ⟨s', hs', hjoined⟩ := h.grows.settings.getElem?_joined hs
      exact ⟨s', hs', hjoined.extended⟩
  emissions := by
    rcases h.emissions with ⟨hsame, -⟩ | ⟨hnew, -⟩
    · exact hsame ▸ List.prefix_rfl
    · rw [hnew]
      exact List.prefix_append ..

end Update

theorem regular_initial (w : Workspace) (g : Nat) (nodes outputs : List NodeRef) :
    (initial w g nodes outputs).Regular w g nodes where
  distinct x := ⟨by simp [entry_initial_settings], by simp [entry_initial_settings]⟩
  fills x _ s hs := by simp [entry_initial_settings] at hs
  emissions m hm := by simp [initial] at hm

/-- **One move** keeps settings regular, and it keeps all of them. -/
theorem Move.regular (hlists : w.Lists g roots nodes)
    (houtputs : ∀ x ∈ outputs, w.Has x → x ∈ nodes) (hcounts : Counts w g nodes outputs r)
    {phase : Phase} (h : Move w g nodes outputs phase r r') (hr : r.Regular w g nodes) :
    r'.Regular w g nodes ∧ r.Extends r' := by
  cases h with
  | note hn _ h =>
    obtain ⟨x, hinput, hx, h⟩ := h
    exact ⟨h.regular (by simp) hx (hlists.inputs _ hn x hinput) hr, h.extended⟩
  | @store n _ hn content =>
    obtain ⟨hgraph, hhas⟩ := hlists.has n hn
    have hsettings : ∀ y, ((r.store n content).entry y).settings = (r.entry y).settings := by
      intro y
      rw [entry_store (hcounts.index_lt hgraph hhas)]
      split <;> rfl
    constructor
    · constructor
      case distinct =>
        exact fun y => ⟨hsettings y ▸ (hr.distinct y).fills,
          hsettings y ▸ (hr.distinct y).demanders⟩
      case fills => exact fun y hy s hs => hr.fills y hy s (hsettings y ▸ hs)
      case emissions => exact hr.emissions
    · exact ⟨fun y i s hs => ⟨s, by rwa [hsettings y], .refl s⟩, List.prefix_refl _⟩
  | serve hn h =>
    obtain ⟨c, -, h⟩ := h
    exact ⟨h.regular (by simp) (hlists.has _ hn).1 hn hr, h.extended⟩
  | require hroot h =>
    obtain ⟨x, rfl, hx, h⟩ := h
    have hhas : w.Has x := by
      have hlt := h.index_lt
      rwa [hcounts.size, ← hx] at hlt
    refine ⟨h.regular (fun hnone => ?_) hx (houtputs x hroot hhas) hr, h.extended⟩
    split at hnone <;> simp_all

/-- **All moves together.** -/
theorem Passes.regular (hlists : w.Lists g roots nodes)
    (houtputs : ∀ x ∈ outputs, w.Has x → x ∈ nodes) (hcounts : Counts w g nodes outputs r)
    (hr : r.Regular w g nodes) (h : Passes w g nodes outputs P r r') :
    r'.Regular w g nodes ∧ r.Extends r' := by
  refine (h.invariant hlists (I := fun s => s.Regular w g nodes ∧ r.Extends s) ?_ hcounts
    ⟨hr, .refl r⟩).2
  rintro phase s s' - hs hmove ⟨hregular, hextends⟩
  exact (hmove.regular hlists houtputs hs hregular).imp_right hextends.trans

end Run
end LanePadding
