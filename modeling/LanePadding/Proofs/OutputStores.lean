import LanePadding.Proofs.Targeting

/-!
# Stores of outputs come last

Whether outputs must leave zero-filled is asked only after all nodes are simulated.  So an analysis
that requires it starts from the very state that an analysis which does not require it ends with,
and goes through the outputs one by one.  For each of them it does nothing, or the store of the
output joins zeros that some of its readers demanded, or a new action is added at the end of the
list.  The other outputs do not see any of this, since an output is stored on its own tensor.

An output without other readers has no settings at all when its turn comes, so zeros for all readers
are never joined.

## What is here

* `pairwise_idxOf_distinct` — distinct elements are listed in the order in which they first occur.
* `Action.Joined`, `Action.IsStore`, `StoresAdded` — what storing outputs does to the actions.
* `Run.stored_of_yields` — one output is stored, and `Run.stored_of_forM`, all of them.
* `Engine.stores_of_analyze` — the output requirement only adds stores.
-/

set_option autoImplicit false

namespace LanePadding

/-! ## Distinct elements -/

section Distinct

variable {α : Type} [DecidableEq α]

theorem distinct_append_singleton (xs : List α) (x : α) :
    distinct (xs ++ [x]) = insertLast (distinct xs) x := by
  rw [distinct, distinct, List.foldl_append]
  rfl

/-- Distinct elements are listed in the order in which they first occur. -/
theorem pairwise_idxOf_distinct (xs : List α) :
    (distinct xs).Pairwise fun a b => xs.idxOf a < xs.idxOf b := by
  induction xs using List.reverseRecOn with
  | nil => exact .nil
  | append_singleton xs x ih =>
    have hold : ∀ {a}, a ∈ distinct xs → (xs ++ [x]).idxOf a = xs.idxOf a := fun ha =>
      List.idxOf_append_of_mem (mem_distinct.1 ha)
    have hkept : (distinct xs).Pairwise fun a b => (xs ++ [x]).idxOf a < (xs ++ [x]).idxOf b :=
      ih.imp_of_mem fun ha hb hlt => by rwa [hold ha, hold hb]
    rw [distinct_append_singleton, insertLast]
    split
    · exact hkept
    · rename_i hx
      refine List.pairwise_append.2 ⟨hkept, List.pairwise_singleton .., fun a ha b hb => ?_⟩
      obtain rfl := List.mem_singleton.1 hb
      rw [hold ha, List.idxOf_append_of_notMem fun hmem => hx (mem_distinct.2 hmem)]
      exact Nat.lt_add_right _ (List.idxOf_lt_length_iff.2 (mem_distinct.1 ha))

end Distinct

theorem forall₂_comp {α β γ : Type} {R : α → β → Prop} {S : β → γ → Prop} {T : α → γ → Prop}
    (hcomp : ∀ a b c, R a b → S b c → T a c) {l : List α} {l' : List β} {l'' : List γ}
    (h : List.Forall₂ R l l') (h' : List.Forall₂ S l' l'') : List.Forall₂ T l l'' := by
  induction h generalizing l'' with
  | nil =>
    cases h'
    exact .nil
  | cons hab _ ih =>
    cases h' with
    | cons hbc hrest => exact .cons (hcomp _ _ _ hab hbc) (ih hrest)

/-! ## Actions -/

/-- What becomes of an action when outputs are stored: nothing, or the store of an output joins the
zeros that some of its readers demanded. -/
inductive Action.Joined (w : Workspace) (outputs : List NodeRef) (b : Action) : Action → Prop
  | same : Joined w outputs b b
  | store {v : Scalar} (hroot : b.tensor ∈ outputs) (hfill : b.fill = .constant v)
      (hzero : v.equal ⟨(w.node b.tensor).dtype, .zero⟩ = true) (htargets : b.targets ≠ []) :
      Joined w outputs b ⟨b.tensor, b.fill, b.targets ++ [b.tensor]⟩

/-- The action writes zeros into an output with padding lanes. -/
structure Action.IsStore (w : Workspace) (outputs : List NodeRef) (b : Action) : Prop where
  root : b.tensor ∈ outputs
  padded : (w.node b.tensor).hasPadding = true
  fill : b.fill = .constant ⟨(w.node b.tensor).dtype, .zero⟩

/-- The actions after the outputs were stored: stores may have joined the old ones, and the new ones
are stores, in the order of the outputs. -/
def StoresAdded (w : Workspace) (outputs : List NodeRef) (l l' : List Action) : Prop :=
  ∃ extended added, l' = extended ++ added ∧ List.Forall₂ (Action.Joined w outputs) l extended ∧
    (∀ b ∈ added, b.IsStore w outputs) ∧ (added.map Action.tensor).Sublist outputs

section Stores

variable {w : Workspace} {outputs outputs' : List NodeRef} {l l' l'' : List Action}

theorem Action.Joined.mono (hsubset : outputs ⊆ outputs') {b b' : Action}
    (h : b.Joined w outputs b') :
    b.Joined w outputs' b' := by
  cases h with
  | same => exact .same
  | store hroot hfill hzero htargets => exact .store (hsubset hroot) hfill hzero htargets

theorem Action.Joined.eq_of_notMem {b b' : Action} (h : b.Joined w outputs b')
    (hb : b.tensor ∉ outputs) : b' = b := by
  cases h with
  | same => rfl
  | store hroot => exact absurd hroot hb

/-- An action is joined by one output at most. -/
theorem Action.Joined.trans (hdisjoint : outputs.Disjoint outputs') {b b' b'' : Action}
    (h : b.Joined w outputs b') (h' : b'.Joined w outputs' b'') :
    b.Joined w (outputs ++ outputs') b'' := by
  cases h with
  | same => exact h'.mono (List.subset_append_right ..)
  | store hroot hfill hzero htargets =>
    rw [h'.eq_of_notMem (hdisjoint hroot)]
    exact .store (List.mem_append_left _ hroot) hfill hzero htargets

theorem StoresAdded.refl (w : Workspace) (outputs : List NodeRef) (l : List Action) :
    StoresAdded w outputs l l :=
  ⟨l, [], (List.append_nil l).symm, List.forall₂_same.2 fun _ _ => .same, by simp,
    List.nil_sublist _⟩

/-- Outputs are stored one after the other, and the later ones leave the stores of the earlier ones
alone. -/
theorem StoresAdded.trans (hdisjoint : outputs.Disjoint outputs') (h : StoresAdded w outputs l l')
    (h' : StoresAdded w outputs' l' l'') : StoresAdded w (outputs ++ outputs') l l'' := by
  obtain ⟨extended, added, rfl, hjoined, hstores, hsublist⟩ := h
  obtain ⟨extended', added', rfl, hjoined', hstores', hsublist'⟩ := h'
  have hold := List.forall₂_take extended.length hjoined'
  have hnew := List.forall₂_drop extended.length hjoined'
  rw [List.take_left] at hold
  rw [List.drop_left] at hnew
  have hkept : extended'.drop extended.length = added := by
    have hothers : ∀ b ∈ added, b.tensor ∉ outputs' := fun b hb => hdisjoint (hstores b hb).root
    have hsame := ((List.forall₂_and_left _ _).2 ⟨hothers, hnew⟩).imp fun b b' h =>
      (h.2.eq_of_notMem h.1).symm
    rw [List.forall₂_eq_eq_eq] at hsame
    exact hsame.symm
  refine ⟨extended'.take extended.length, added ++ added', ?_, ?_, fun b hb => ?_, ?_⟩
  · rw [← List.append_assoc, ← hkept, List.take_append_drop]
  · exact forall₂_comp (fun b b' b'' h h' => h.trans hdisjoint h') hjoined hold
  · rcases List.mem_append.1 hb with hb | hb
    · exact ⟨List.mem_append_left _ (hstores b hb).root, (hstores b hb).padded, (hstores b hb).fill⟩
    · exact ⟨List.mem_append_right _ (hstores' b hb).root, (hstores' b hb).padded,
        (hstores' b hb).fill⟩
  · rw [List.map_append]
    exact hsublist.append hsublist'

end Stores

namespace Run

/-- The action that an emission stands for. -/
def action? (r : Run) (m : Emission) : Option Action :=
  (r.entry m.tensor).settings[m.setting]?.map fun s => ⟨m.tensor, s.fill, s.targets⟩

theorem actions_eq (r : Run) : r.actions = r.emissions.filterMap r.action? := rfl

/-- The emissions of a state are about settings of tensors of the graph. -/
structure Emitted (w : Workspace) (g : Nat) (r : Run) : Prop where
  size : r.entries.size = (w.graph g).nodes.size
  graphs : ∀ m ∈ r.emissions, m.tensor.graph = g
  emits : ∀ x, x.graph = g → r.Emits x

/-- The output was not stored yet: it demanded nothing of itself, and without other readers nothing
is written at all. -/
structure Unstored (r : Run) (x : NodeRef) : Prop where
  self : ∀ s ∈ (r.entry x).settings, x ∉ s.demandedBy
  lone : ¬1 < (r.entry x).readers → (r.entry x).settings = []

variable {w : Workspace} {g : Nat} {r r' : Run} {x : NodeRef}

theorem Emits.setting_lt {m : Emission} (h : r.Emits m.tensor) (hm : m ∈ r.emissions) :
    m.setting < (r.entry m.tensor).settings.length := by
  have hmem : m ∈ r.emissions.filter (·.tensor = m.tensor) := List.mem_filter.2 ⟨hm, by simp⟩
  rw [Emits] at h
  rw [h] at hmem
  obtain ⟨i, hi, hm⟩ := List.mem_map.1 hmem
  rw [← hm]
  exact List.mem_range.1 hi

theorem exists_action? (hr : r.Emitted w g) {m : Emission} (hm : m ∈ r.emissions) :
    ∃ s, (r.entry m.tensor).settings[m.setting]? = some s ∧
      r.action? m = some ⟨m.tensor, s.fill, s.targets⟩ := by
  have hlt := (hr.emits m.tensor (hr.graphs m hm)).setting_lt hm
  exact ⟨_, List.getElem?_eq_getElem
    hlt, by rw [action?, List.getElem?_eq_getElem hlt, Option.map_some]⟩

/-- The setting that a store joins is for some readers, and it writes zeros. -/
theorem Unstored.joined_of_write (h : r.Unstored x) {v : Scalar} {i : Nat} {s s' : Setting}
    (hs : (r.entry x).settings[i]? = some s)
    (hs' : ((r.entry x).write (if 1 < (r.entry x).readers then some x else none) (.constant v)
      (decide (1 < (r.entry x).readers))).settings[i]? = some s') :
    s' = s ∨ s'.fill = s.fill ∧ s.fill.equal (.constant v) = true ∧ s.targets ≠ [] ∧
      s'.targets = s.targets ++ [x] := by
  have hsome : 1 < (r.entry x).readers := by
    by_contra hfew
    simp [h.lone hfew] at hs
  rw [if_pos hsome, decide_eq_true hsome, Entry.write] at hs'
  split at hs'
  · rename_i j hj
    obtain ⟨s₀, hs₀, hfill, htargeted⟩ := Entry.exists_of_settingOf? hj
    rw [Entry.modifySetting, List.getElem?_modify, hs] at hs'
    by_cases hij : j = i
    · subst hij
      obtain rfl : s = s₀ := Option.some.inj (hs.symm.trans hs₀)
      simp only [if_true, Option.map_eq_map, Option.map_some, Option.some.injEq, htargeted,
        Setting.addDemand, if_neg (h.self s (List.mem_of_getElem? hs))] at hs'
      subst hs'
      exact .inr ⟨rfl, hfill, by simpa [Setting.isTargeted] using htargeted, rfl⟩
    · simp only [if_neg hij, Option.map_eq_map, Option.map_some, Option.some.injEq] at hs'
      exact .inl hs'.symm
  · rw [List.getElem?_append_left (List.getElem?_eq_some_iff.1 hs).1, hs] at hs'
    exact .inl (Option.some.inj hs').symm

/-- The state after outputs were stored: only the settings of these outputs change. -/
structure Stored (w : Workspace) (g : Nat) (outputs : List NodeRef) (r r' : Run) : Prop where
  emitted : r'.Emitted w g
  others : ∀ y, y.graph = g → y ∉ outputs → r'.entry y = r.entry y
  padding : ∀ y, (r'.entry y).padding = (r.entry y).padding
  actions : StoresAdded w outputs r.actions r'.actions

theorem Stored.refl (hr : r.Emitted w g) (outputs : List NodeRef) : Stored w g outputs r r :=
  ⟨hr, fun _ _ _ => rfl, fun _ => rfl, .refl ..⟩

theorem Stored.trans {outputs outputs' : List NodeRef} {r'' : Run}
    (hdisjoint : outputs.Disjoint outputs') (h : Stored w g outputs r r')
    (h' : Stored w g outputs' r' r'') : Stored w g (outputs ++ outputs') r r'' where
  emitted := h'.emitted
  others y hy hnot := by
    rw [List.mem_append, not_or] at hnot
    rw [h'.others y hy hnot.2, h.others y hy hnot.1]
  padding y := (h'.padding y).trans (h.padding y)
  actions := h.actions.trans hdisjoint h'.actions

/-- Zeros are written for the store of an output. -/
def writeZeros (w : Workspace) (r : Run) (x : NodeRef) : Run :=
  r.write (if 1 < (r.entry x).readers then some x else none) x (.constant ⟨(w.node x).dtype, .zero⟩)
    (decide (1 < (r.entry x).readers))

section

variable (hsize : x.index < r.entries.size)

include hsize

theorem update_writeZeros : Update w (if 1 < (r.entry x).readers then some x else none) x
    (decide (1 < (r.entry x).readers)) r (r.writeZeros w x) :=
  .write hsize _ (by simp)

theorem entry_writeZeros (y : NodeRef) : (r.writeZeros w x).entry y = if x.index = y.index then
    (r.entry y).write (if 1 < (r.entry x).readers then some x else none)
      (.constant ⟨(w.node x).dtype, .zero⟩) (decide (1 < (r.entry x).readers)) else r.entry y :=
  entry_write hsize ..

/-- The actions so far are kept, but the store may join one of them. -/
theorem joined_writeZeros (hx : x.graph = g) (hr : r.Emitted w g) (hunstored : r.Unstored x) :
    List.Forall₂ (Action.Joined w [x]) r.actions
      (r.emissions.filterMap (r.writeZeros w x).action?) := by
  have hself : List.Forall₂ (fun m m' => m ∈ r.emissions ∧ m = m') r.emissions r.emissions :=
    List.forall₂_same.2 fun m hm => ⟨hm, rfl⟩
  rw [actions_eq]
  refine List.rel_filterMap (fun m m' hmm' => ?_) hself
  obtain ⟨hm, rfl⟩ := hmm'
  obtain ⟨s, hs, haction⟩ := exists_action? hr hm
  rw [haction]
  by_cases hmx : m.tensor = x
  · rw [hmx] at hs
    obtain ⟨s', hs', -⟩ := (update_writeZeros (w := w) hsize).grows.settings.getElem?_joined hs
    rw [action?, hmx, hs', Option.map_some]
    rw [entry_writeZeros hsize, if_pos rfl] at hs'
    refine .some ?_
    rcases hunstored.joined_of_write hs hs' with rfl | ⟨hfill, hzero, htargets, htargets'⟩
    · exact .same
    · obtain ⟨v, hv, hzero⟩ := Entry.exists_constant?_of_equal hzero
      rw [hfill, htargets']
      exact .store (by simp) (Setting.fill_of_constant? hv) hzero htargets
  · have hne := index_ne hx (hr.graphs m hm) (Ne.symm hmx)
    rw [action?, entry_writeZeros hsize, if_neg hne, hs, Option.map_some]
    exact .some .same

/-- A store that joins nothing is a new action. -/
theorem exists_action?_writeZeros (hlength : ((r.writeZeros w x).entry x).settings.length =
    (r.entry x).settings.length + 1) : ∃ targets, (r.writeZeros w x).action?
      ⟨x, (r.entry x).settings.length⟩ =
        some ⟨x, .constant ⟨(w.node x).dtype, .zero⟩, targets⟩ := by
  rw [entry_writeZeros hsize, if_pos rfl, Entry.write] at hlength
  rw [action?, entry_writeZeros hsize, if_pos rfl, Entry.write]
  split at hlength
  · exact absurd hlength (by simp [Entry.modifySetting])
  · rename_i hnone
    simp only [hnone, List.getElem?_concat_length, Option.map_some, Entry.fill_newSetting]
    exact ⟨_, rfl⟩

theorem stored_writeZeros (hx : x.graph = g) (hpadded : (w.node x).hasPadding = true)
    (hr : r.Emitted w g) (hunstored : r.Unstored x) : Stored w g [x] r (r.writeZeros w x) := by
  have hupdate := update_writeZeros (w := w) hsize
  have hjoined := joined_writeZeros hsize hx hr hunstored
  constructor
  case emitted =>
    refine ⟨hupdate.size.trans hr.size, fun m hm => ?_, fun y hy => hupdate.emits (hy.trans hx.symm)
      (hr.emits y hy)⟩
    rcases hupdate.emissions with ⟨hsame, -⟩ | ⟨hnew, -⟩
    · exact hr.graphs m (hsame ▸ hm)
    · rw [hnew] at hm
      rcases List.mem_append.1 hm with hm | hm
      · exact hr.graphs m hm
      · rw [List.mem_singleton.1 hm, hx]
  case others =>
    intro y hy hnot
    exact hupdate.entry_of_ne (index_ne hx hy fun hxy => hnot (by simp [hxy]))
  case padding =>
    intro y
    rw [entry_writeZeros hsize]
    split
    · rw [Entry.padding_write]
    · rfl
  case actions =>
    rcases hupdate.emissions with ⟨hsame, -⟩ | ⟨hnew, hlength⟩
    · exact ⟨_, [], by rw [List.append_nil, actions_eq, hsame], hjoined, by simp, by simp⟩
    · obtain ⟨targets, haction⟩ := exists_action?_writeZeros hsize hlength
      refine ⟨_, [⟨x, .constant ⟨(w.node x).dtype, .zero⟩, targets⟩], ?_, hjoined, ?_, by simp⟩
      · rw [actions_eq, hnew, List.filterMap_append, List.filterMap_cons, haction]
        rfl
      · exact List.forall_mem_singleton.2 ⟨by simp, hpadded, rfl⟩

end

/-- **One output is stored.** -/
theorem stored_of_yields (hx : x.graph = g) (hr : r.Emitted w g)
    (hunstored : r.Unstored x) {u : Unit} (h : (RunM.requireOutput w x).Yields r u r') :
    Stored w g [x] r r' := by
  by_cases hpadded : (w.node x).hasPadding = true
  · obtain ⟨-, -, ⟨-, rfl⟩ | ⟨-, rfl⟩⟩ := write_of_requireOutput hunstored.self hpadded h
    · exact .refl hr _
    · refine stored_writeZeros ?_ hx hpadded hr hunstored
      rw [hr.size, ← hx]
      exact has_of_hasPadding hpadded
  · rcases RunM.yields_requireOutput.1 h with ⟨-, rfl⟩ | ⟨hpadded', -⟩
    · exact .refl hr _
    · exact absurd hpadded' hpadded

/-- **All outputs are stored**, one after the other. -/
theorem stored_of_forM {outputs : List NodeRef} (hnodup : outputs.Nodup)
    (houtputs : ∀ x ∈ outputs, x.graph = g ∧ r.Unstored x) (hr : r.Emitted w g) {u : Unit}
    (h : (outputs.forM (RunM.requireOutput w)).Yields r u r') : Stored w g outputs r r' := by
  induction outputs generalizing r with
  | nil =>
    obtain rfl := RunM.yields_forM_nil.1 h
    exact .refl hr _
  | cons x outputs ih =>
    obtain ⟨r₁, hx, hrest⟩ := RunM.yields_forM_cons.1 h
    obtain ⟨hnot, hnodup⟩ := List.nodup_cons.1 hnodup
    obtain ⟨hgraph, hunstored⟩ := houtputs x (by simp)
    have hstored := stored_of_yields hgraph hr hunstored hx
    have houtputs' : ∀ y ∈ outputs, y.graph = g ∧ r₁.Unstored y := by
      intro y hy
      obtain ⟨hygraph, hyunstored⟩ := houtputs y (by simp [hy])
      have hentry := hstored.others y hygraph fun hyx => hnot (List.mem_singleton.1 hyx ▸ hy)
      exact ⟨hygraph, hentry ▸ hyunstored.self, hentry ▸ hyunstored.lone⟩
    have htail := ih hnodup houtputs' hstored.emitted hrest
    exact hstored.trans (List.singleton_disjoint.2 hnot) htail

end Run

/-! ## Analyses -/

namespace Engine

variable {w : Workspace} {engine : Engine} {roots : List NodeRef} {a a₀ a₁ : Analysis} {r : Run}

/-- Nodes are simulated without regard to what outputs must leave with. -/
theorem simulateFrom_outputPadding (required : Bool) (count i : Nat)
    (nodes : List NodeRef) (r : Run) :
    { engine with outputPadding := required }.simulateFrom w count i nodes r =
      engine.simulateFrom w count i nodes r := by
  induction nodes generalizing i r with
  | nil => rfl
  | cons n nodes ih =>
    have hstep : { engine with outputPadding := required }.step w n = engine.step w n := rfl
    rw [simulateFrom, simulateFrom, hstep]
    split
    · rfl
    · exact ih ..

/-- No output is stored before all nodes are simulated. -/
theorem Simulates.unstored (h : engine.Simulates w roots a r) (hw : w.WellFormed) {x : NodeRef}
    (hroot : x ∈ roots) :
    r.Unstored x := by
  obtain ⟨hgraph, hlisted⟩ := h.lists.roots x hroot
  by_cases hhas : w.Has x
  · have hx := hlisted hhas
    refine ⟨h.not_mem_self hw hx, fun hfew => ?_⟩
    obtain ⟨k, q, hshape⟩ := h.shaped x hx
    have hreaders := h.coherent.readers x hgraph hhas
    rw [if_pos (mem_distinct.2 hroot)] at hreaders
    exact (hshape.settings_eq_nil h.coherent hgraph (List.length_eq_zero_iff.1 (by omega))).2
  · -- nothing is known of a root that does not exist
    have hblank : r.entry x = .blank := by
      rw [Run.entry, Array.getD_eq_getD_getElem?, Array.getElem?_eq_none, Option.getD_none]
      rw [h.coherent.size, ← hgraph]
      exact Nat.not_lt.1 hhas
    exact ⟨by simp [hblank, Entry.blank], fun _ => by rw [hblank]; rfl⟩

/-- The emissions of a simulation are about settings of its graph. -/
theorem Simulates.emitted (h : engine.Simulates w roots a r) (hw : w.WellFormed) :
    r.Emitted w a.graph where
  size := h.coherent.size
  graphs m hm := by
    have hinitial := Run.coherent_initial w a.graph a.nodes (distinct roots)
    have hpasses := Run.passes_of_simulateFrom (P := fun _ => True) hw h.lists
      (show a.nodes = [] ++ (a.nodes ++ []) by simp) hinitial
      (fun _ _ => ⟨trivial, trivial⟩) h.simulates
    have hregular := (hpasses.regular h.lists
      (fun x hx => (h.lists.roots x (mem_distinct.1 hx)).2) hinitial.toCounts
      (Run.regular_initial ..)).1
    exact (h.lists.has _ (hregular.emissions m hm)).1
  emits := h.coherent.emits

/-- **The output requirement only adds stores.**  Whether outputs must leave zero-filled changes
neither the nodes of an analysis nor what they hold, nor who relies on it.  The actions without the
requirement come first, with the same tensors and fills and for the same readers, except that an
output may be added to the targets of zeros that are written into it for some of its readers.  The
other actions write zeros into outputs with padding lanes, each of them once, in the order in which
the outputs first occur among the roots. -/
theorem stores_of_analyze (hw : w.Built)
    (h₀ : { engine with outputPadding := false }.analyze w roots = .ok a₀)
    (h₁ : { engine with outputPadding := true }.analyze w roots = .ok a₁) :
    a₁.nodes = a₀.nodes ∧ (∀ x, a₁.padding? x = a₀.padding? x) ∧
    ∃ extended added, a₁.actions = extended ++ added ∧ extended.length = a₀.actions.length ∧
      List.Forall₂ (Action.Joined w roots) a₀.actions extended ∧ (∀ b ∈ added, b.IsStore w roots) ∧
      added.Pairwise fun b b' => roots.idxOf b.tensor < roots.idxOf b'.tensor := by
  have hwf := hw.wellFormed
  obtain ⟨first, rest, r, rfl, hgraph₀, hreach₀, hsim₀, hpure⟩ := analyze_eq_ok.1 h₀
  obtain ⟨r₁, hsimulates⟩ := exists_simulates hwf h₁
  obtain ⟨_, _, -, hroots, hgraph₁, hreach₁, -⟩ := analyze_eq_ok.1 h₁
  obtain ⟨rfl, rfl⟩ := List.cons.inj hroots
  have hnodes : a₁.nodes = a₀.nodes := Except.ok.inj (hreach₁.symm.trans hreach₀)
  have hgraph : a₁.graph = a₀.graph := hgraph₁.trans hgraph₀.symm
  -- both analyses come to the same state, which is the end of the first one
  have hrun : a₀.run = r₁ := by
    have hsim₁ := hsimulates.simulates
    rw [simulateFrom_outputPadding, hnodes, hgraph] at hsim₁
    rw [simulateFrom_outputPadding] at hsim₀
    obtain ⟨-, hend⟩ := RunM.yields_pure.1 hpure
    exact hend.trans (Except.ok.inj (hsim₀.symm.trans hsim₁))
  have hunstored : ∀ x ∈ distinct (first :: rest), x.graph = a₁.graph ∧ r₁.Unstored x := by
    intro x hx
    have hroot := mem_distinct.1 hx
    exact ⟨(hsimulates.lists.roots x hroot).1, hsimulates.unstored hwf hroot⟩
  have hstored := Run.stored_of_forM (nodup_distinct _) hunstored
    (hsimulates.emitted hwf) hsimulates.stores
  obtain ⟨extended, added, hactions, hjoined, hstores, hsublist⟩ := hstored.actions
  have hsubset : distinct (first :: rest) ⊆ first :: rest := fun x hx => mem_distinct.1 hx
  refine ⟨hnodes, fun x => ?_, extended, added, hactions, ?_, ?_, fun b hb => ?_, ?_⟩
  · rw [Analysis.padding?, Analysis.padding?, hgraph, hrun, hstored.padding]
  · rw [Analysis.actions, hrun, hjoined.length_eq]
  · rw [Analysis.actions, hrun]
    exact hjoined.imp fun b b' h => h.mono hsubset
  · exact ⟨hsubset (hstores b hb).root, (hstores b hb).padded, (hstores b hb).fill⟩
  · have hordered := (pairwise_idxOf_distinct (first :: rest)).sublist hsublist
    rwa [List.pairwise_map] at hordered

/-- The vector itself is stored, too.  Its store joins the zeros that are written for the sum, and
the magnitudes and the negated vector get zeros of their own. -/
theorem stores_magnitudes :
    ∃ a₀ a₁, (Engine.mk .default false none).analyze .magnitudes
        [⟨0, 4⟩, ⟨0, 1⟩, ⟨0, 0⟩, ⟨0, 2⟩, ⟨0, 3⟩] = .ok a₀ ∧
      default.analyze .magnitudes [⟨0, 4⟩, ⟨0, 1⟩, ⟨0, 0⟩, ⟨0, 2⟩, ⟨0, 3⟩] = .ok a₁ ∧
      a₀.actions = [⟨⟨0, 0⟩, .constant ⟨.float32, .one⟩, []⟩,
        ⟨⟨0, 0⟩, .constant ⟨.float32, .zero⟩, [⟨0, 2⟩]⟩] ∧
      a₁.actions = [⟨⟨0, 0⟩, .constant ⟨.float32, .one⟩, []⟩,
        ⟨⟨0, 0⟩, .constant ⟨.float32, .zero⟩, [⟨0, 2⟩, ⟨0, 0⟩]⟩,
        ⟨⟨0, 4⟩, .constant ⟨.float32, .zero⟩, []⟩,
        ⟨⟨0, 3⟩, .constant ⟨.float32, .zero⟩, [⟨0, 3⟩]⟩] ∧
      (∀ x, a₁.padding? x = a₀.padding? x) ∧ ∃ extended added, a₁.actions = extended ++ added ∧
        List.Forall₂ (Action.Joined .magnitudes [⟨0, 4⟩, ⟨0, 1⟩, ⟨0, 0⟩, ⟨0, 2⟩, ⟨0, 3⟩])
          a₀.actions extended := by
  obtain ⟨a₀, h₀, hactions₀⟩ : ∃ a, (Engine.mk .default false none).analyze .magnitudes
      [⟨0, 4⟩, ⟨0, 1⟩, ⟨0, 0⟩, ⟨0, 2⟩, ⟨0, 3⟩] = .ok a ∧ a.actions =
        [⟨⟨0, 0⟩, .constant ⟨.float32, .one⟩, []⟩,
          ⟨⟨0, 0⟩, .constant ⟨.float32, .zero⟩, [⟨0, 2⟩]⟩] :=
    Workspace.built_magnitudes.exists_analyze 0 [⟨0, 0⟩, ⟨0, 1⟩, ⟨0, 2⟩, ⟨0, 3⟩, ⟨0, 4⟩]
      (by decide) (by decide +kernel)
  obtain ⟨a₁, h₁, hactions₁⟩ : ∃ a, default.analyze .magnitudes
      [⟨0, 4⟩, ⟨0, 1⟩, ⟨0, 0⟩, ⟨0, 2⟩, ⟨0, 3⟩] = .ok a ∧ a.actions =
        [⟨⟨0, 0⟩, .constant ⟨.float32, .one⟩, []⟩,
          ⟨⟨0, 0⟩, .constant ⟨.float32, .zero⟩, [⟨0, 2⟩, ⟨0, 0⟩]⟩,
          ⟨⟨0, 4⟩, .constant ⟨.float32, .zero⟩, []⟩,
          ⟨⟨0, 3⟩, .constant ⟨.float32, .zero⟩, [⟨0, 3⟩]⟩] :=
    Workspace.built_magnitudes.exists_analyze 0 [⟨0, 0⟩, ⟨0, 1⟩, ⟨0, 2⟩, ⟨0, 3⟩, ⟨0, 4⟩]
      (by decide) (by decide +kernel)
  obtain ⟨-, hpadding, extended, added, hactions, -, hjoined, -⟩ :=
    @stores_of_analyze _ default _ _ _ Workspace.built_magnitudes h₀ h₁
  exact ⟨a₀, a₁, h₀, h₁, hactions₀, hactions₁, hpadding,
    extended, added, hactions, hjoined⟩

end Engine

end LanePadding
