import LanePadding.Proofs.Built
import LanePadding.Proofs.Growth

/-!
# What a simulated node holds and requires

Simulating a node is a sequence of steps on the state: look at an operand, demand copies of its lane
0, note the node on what it relies on, demand a constant.  For each operator this comes to two
facts, and they are what the rest of the development uses.  The content of the node's padding lanes
is a function of what the node sees in its operands, and nothing else has changed but what the node
demanded.

## What is here

* `Run.sees` — what the padding lanes of a node find in an operand.
* `Run.Viewed` — the state after a node looked at operands.  Nobody reads anything else than before;
  the copies of lane 0 that these operands need are demanded, and no others.  The node is noted
  where it demanded copies and on the branches that it resolved, and nowhere else.
* `Run.infer` — the equation of a node, for each operator.
* `RunM.simulate_leaf`, `RunM.simulate_pointwise`, `RunM.simulate_reduce` — a simulation answers by
  the equation.  A reduction over padding lanes reads its neutral element there afterwards.
-/

set_option autoImplicit false

namespace LanePadding

/-- The axes of `x` whose lanes must be copies of lane 0 before the node `n` reads them. -/
def Workspace.laneFix (w : Workspace) (n x : NodeRef) : List Nat :=
  (w.node x).laneFixAxes ((w.node n).replicatedAxes (w.node x))

/-- The position expression that makes them copies of lane 0. -/
def Workspace.laneFixExpr (w : Workspace) (n x : NodeRef) : PositionExpr :=
  ⟨x, (w.laneFix n x).map Int.ofNat⟩

namespace Run

/-- What the padding lanes of the node `n` find in an operand. -/
def sees (w : Workspace) (r : Run) (n : NodeRef) : Operand → Option PaddingValue
  | .scalar v => some (.exact v)
  | .symbol _ _ => some .dependent
  | .node x =>
    let into := (w.node n).axesIntoPadding (w.node x)
    if into.isEmpty then (r.read x (some n)).map PaddingValue.clone
    else if (w.node n).paddingReadsPadding (w.node x) then
      (r.read x (some n)).map PaddingValue.meetData
    else some (.ofContent (.dependent (some ⟨x, (into.filterMap id).map Int.ofNat⟩)))

/-- The consumer `c` demanded that a position expression be written into the tensor `x`. -/
def Demands (r : Run) (c x : NodeRef) (e : PositionExpr) : Prop :=
  ∃ s ∈ (r.entry x).settings, s.fill = .position e ∧ c ∈ s.demandedBy

/-- The state after the node `n` looked at operands and resolved some of them: nobody reads anything
else than before, and the copies of lane 0 that the operands need are demanded. -/
structure Viewed (w : Workspace) (g : Nat) (n : NodeRef) (viewed resolved : List Operand)
    (r r' : Run) :
    Prop where
  grown : Grown w g (some n) (· ∈ (w.node n).inputs) r r'
  fills : ∀ x c, fillFor (r'.entry x).settings c = fillFor (r.entry x).settings c
  /-- No setting with a constant is made. -/
  constants : ∀ x i s', (r'.entry x).settings[i]? = some s' → s'.constant? ≠ none →
    i < (r.entry x).settings.length
  /-- The node joins a setting with a constant only if that is for all readers. -/
  joins : ∀ (x : NodeRef) (i : Nat) (s' : Setting), (r'.entry x).settings[i]? = some s' →
    s'.constant? ≠ none → n ∈ s'.demandedBy →
    ∃ s : Setting, (r.entry x).settings[i]? = some s ∧ (n ∈ s.demandedBy ∨ s.targets = [])
  fixes : ∀ x e, x.graph = g → (r'.Demands n x e ↔
    r.Demands n x e ∨ .node x ∈ viewed ∧ w.laneFix n x ≠ [] ∧ e = w.laneFixExpr n x)
  notes : ∀ x, x.graph = g → ((r'.entry x).Notes n ↔
    (r.entry x).Notes n ∨ .node x ∈ viewed ∧ w.laneFix n x ≠ [] ∨ .node x ∈ resolved)

variable {w : Workspace} {g : Nat} {n : NodeRef} {viewed resolved : List Operand} {r r' r'' : Run}

/-- Nothing changes if no copies are needed and the node is noted already. -/
theorem viewed_self (hviewed : ∀ x, .node x ∈ viewed → w.laneFix n x = [])
    (hresolved : ∀ x, .node x ∈ resolved → (r.entry x).Notes n) :
    Viewed w g n viewed resolved r r where
  grown := .refl ..
  fills _ _ := rfl
  constants _ _ _ hs _ := (List.getElem?_eq_some_iff.1 hs).1
  joins _ _ s hs _ hmem := ⟨s, hs, .inl hmem⟩
  fixes x _ _ := ⟨.inl, fun h => h.elim id fun ⟨hx, hne, _⟩ => absurd (hviewed x hx) hne⟩
  notes x _ := by
    refine ⟨.inl, ?_⟩
    rintro (h | ⟨hx, hne⟩ | hx)
    · exact h
    · exact absurd (hviewed x hx) hne
    · exact hresolved x hx

theorem Viewed.trans {viewed' resolved' : List Operand} (h : Viewed w g n viewed resolved r r')
    (h' : Viewed w g n viewed' resolved' r' r'') :
    Viewed w g n (viewed ++ viewed') (resolved ++ resolved') r r'' where
  grown := h.grown.trans h'.grown
  fills x c := (h'.fills x c).trans (h.fills x c)
  constants x i s'' hs'' hconst := by
    have hi := h'.constants x i s'' hs'' hconst
    rcases (h'.grown.settings x).getElem?_cases hs'' with ⟨s', hs', hjoined⟩ | ⟨hle, -⟩
    · exact h.constants x i s' hs' (hjoined.constant?_eq ▸ hconst)
    · exact absurd hi (Nat.not_lt.2 hle)
  joins x i s'' hs'' hconst hmem := by
    obtain ⟨s', hs', hwhy⟩ := h'.joins x i s'' hs'' hconst hmem
    have hconst' : s'.constant? ≠ none := by
      rcases (h'.grown.settings x).getElem?_cases hs'' with ⟨u, hu, hjoined⟩ | ⟨hle, -⟩
      · obtain rfl : s' = u := Option.some.inj (hs'.symm.trans hu)
        exact hjoined.constant?_eq ▸ hconst
      · exact absurd (List.getElem?_eq_some_iff.1 hs').1 (Nat.not_lt.2 hle)
    rcases hwhy with hmem' | hnil
    · exact h.joins x i s' hs' hconst' hmem'
    · rcases (h.grown.settings x).getElem?_cases hs' with ⟨s, hs, hjoined⟩ | ⟨hle, -⟩
      · exact ⟨s, hs, .inr (hjoined.targets_eq_nil_iff.1 hnil)⟩
      · exact absurd (h.constants x i s' hs' hconst') (Nat.not_lt.2 hle)
  fixes x e hx := by
    rw [h'.fixes x e hx, h.fixes x e hx, List.mem_append, or_and_right, or_assoc]
  notes x hx := by
    rw [h'.notes x hx, h.notes x hx, List.mem_append, List.mem_append, or_and_right]
    tauto

/-- Readings are the same up to the consumers that rely on them. -/
theorem Viewed.read_eq (h : Viewed w g n viewed resolved r r') (x : NodeRef) (c : Option NodeRef) :
    (r'.read x c).map PaddingValue.clone = (r.read x c).map PaddingValue.clone :=
  read_congr (h.fills x c) (h.grown.padding x)

theorem map_meetData (o : Option PaddingValue) :
    o.map PaddingValue.meetData = (o.map PaddingValue.clone).map PaddingValue.meetData := by
  rw [Option.map_map]
  rfl

/-- The padding lanes of the node see the same in all its operands. -/
theorem Viewed.sees_eq (h : Viewed w g n viewed resolved r r') (a : Operand) :
    r'.sees w n a = r.sees w n a := by
  cases a with
  | scalar v => rfl
  | symbol name d => rfl
  | node x =>
    rw [sees, sees, map_meetData (r'.read x (some n)), map_meetData (r.read x (some n)),
      h.read_eq x (some n)]

end Run

/-! ## Demanding copies of lane 0 -/

namespace Entry

/-- Writing a position expression for a consumer adds just this demand. -/
theorem demands_write {e : Entry} {c : NodeRef} {expr expr' : PositionExpr} {t : Bool} :
    (∃ s ∈ (e.write (some c) (.position expr) t).settings, s.fill = .position expr' ∧
      c ∈ s.demandedBy) ↔
        (∃ s ∈ e.settings, s.fill = .position expr' ∧ c ∈ s.demandedBy) ∨ expr' = expr := by
  rw [write]
  split
  · rename_i i hi
    obtain ⟨s₀, hs₀, hfill₀, -⟩ := exists_of_settingOf? hi
    have hfill := fill_eq_of_equal hfill₀
    constructor
    · rintro ⟨s, hs, hfs, hc⟩
      rcases mem_modify hs with hs | ⟨b, hb, rfl⟩
      · exact .inl ⟨s, hs, hfs, hc⟩
      · obtain rfl : s₀ = b := Option.some.inj (hs₀.symm.trans hb)
        rw [Setting.fill_addDemand, hfill] at hfs
        exact .inr (Fill.position.inj hfs).symm
    · rintro (⟨s, hs, hfs, hc⟩ | rfl)
      · obtain ⟨s', hs', hjoined⟩ := (SettingsGrow.join (some c) t e.settings i).exists_joined hs
        exact ⟨s', hs', hjoined.fill_eq.trans hfs, hjoined.mem_demandedBy_of_mem hc⟩
      · exact ⟨_, mem_modify_of_getElem? hs₀, (Setting.fill_addDemand ..).trans hfill,
          Setting.mem_demandedBy_addDemand.2 (.inr rfl)⟩
  · simp only [List.mem_append, List.mem_singleton]
    constructor
    · rintro ⟨s, hs | rfl, hfs, hc⟩
      · exact .inl ⟨s, hs, hfs, hc⟩
      · rw [fill_newSetting] at hfs
        exact .inr (Fill.position.inj hfs).symm
    · rintro (⟨s, hs, hfs, hc⟩ | rfl)
      · exact ⟨s, .inl hs, hfs, hc⟩
      · exact ⟨_, .inr rfl, fill_newSetting .., mem_demandedBy_newSetting.2 rfl⟩

/-- Writing a position expression makes no setting with a constant. -/
theorem lt_length_of_write_position {e : Entry} {c : NodeRef} {expr : PositionExpr}
    {t : Bool} {i : Nat} {s' : Setting}
    (hs' : (e.write (some c) (.position expr) t).settings[i]? = some s')
    (hconst : s'.constant? ≠ none) : i < e.settings.length := by
  rw [write] at hs'
  split at hs'
  · simpa [modifySetting] using (List.getElem?_eq_some_iff.1 hs').1
  · by_contra hi
    obtain rfl : newSetting (some c) (.position expr) t = s' := by
      rw [List.getElem?_append_right (Nat.not_lt.1 hi), List.getElem?_singleton] at hs'
      split at hs' <;> simp_all
    simp [Setting.constant?] at hconst

/-- Writing a position expression joins no setting with a constant. -/
theorem getElem?_of_write_position {e : Entry} {c : NodeRef} {expr : PositionExpr}
    {t : Bool} {i : Nat} {s' : Setting}
    (hs' : (e.write (some c) (.position expr) t).settings[i]? = some s')
    (hconst : s'.constant? ≠ none) : e.settings[i]? = some s' := by
  have hlt := lt_length_of_write_position hs' hconst
  rw [write] at hs'
  split at hs'
  · rename_i j hj
    obtain ⟨s₀, hs₀, hfill, -⟩ := exists_of_settingOf? hj
    rw [modifySetting, List.getElem?_modify] at hs'
    split at hs'
    · rename_i hji
      subst hji
      rw [hs₀, Option.map_eq_map, Option.map_some, Option.some.injEq] at hs'
      rw [← hs', Setting.constant?_addDemand, Setting.constant?, fill_eq_of_equal hfill] at hconst
      exact absurd rfl hconst
    · simpa using hs'
  · rwa [List.getElem?_append_left hlt] at hs'

/-- Who relies on a constant joins it only if it is for all readers. -/
theorem joins_rely {e : Entry} {c : NodeRef} {i : Nat} {s' : Setting}
    (hs' : (e.rely (some c)).settings[i]? = some s') (hmem : c ∈ s'.demandedBy) :
    ∃ s, e.settings[i]? = some s ∧ (c ∈ s.demandedBy ∨ s.targets = []) := by
  rw [rely] at hs'
  split at hs'
  · rename_i j hj
    obtain ⟨s₀, v, hs₀, -, hwhy⟩ := exists_of_source? hj
    rw [modifySetting, List.getElem?_modify] at hs'
    split at hs'
    · rename_i hji
      subst hji
      refine ⟨s₀, hs₀, ?_⟩
      rcases hwhy with ⟨c₀, hc₀, hdemanded⟩ | ⟨hgeneral, -⟩
      · exact .inl (Option.some.inj hc₀ ▸ hdemanded)
      · exact .inr (by simpa [Setting.isTargeted] using hgeneral)
    · exact ⟨s', by simpa using hs', .inl hmem⟩
  · exact ⟨s', hs', .inl hmem⟩

/-- Joining a setting that writes a constant demands no position expression. -/
theorem demands_join_constant {l : List Setting} {c : NodeRef} {expr : PositionExpr} {i : Nat}
    {s₀ : Setting} {v : Scalar} (hs₀ : l[i]? = some s₀) (hv : s₀.constant? = some v) :
    (∃ s ∈ l.modify i fun s => s.addDemand (some c) s.isTargeted,
        s.fill = .position expr ∧ c ∈ s.demandedBy) ↔
      ∃ s ∈ l, s.fill = .position expr ∧ c ∈ s.demandedBy := by
  constructor
  · rintro ⟨s, hs, hfill, hc⟩
    rcases mem_modify hs with hs | ⟨b, hb, rfl⟩
    · exact ⟨s, hs, hfill, hc⟩
    · obtain rfl : s₀ = b := Option.some.inj (hs₀.symm.trans hb)
      rw [Setting.fill_addDemand] at hfill
      rw [Setting.constant?, hfill] at hv
      exact absurd hv (by simp)
  · rintro ⟨s, hs, hfill, hc⟩
    obtain ⟨s', hs', hjoined⟩ := (SettingsGrow.join (some c) true l i).exists_joined hs
    exact ⟨s', hs', hjoined.fill_eq.trans hfill, hjoined.mem_demandedBy_of_mem hc⟩

end Entry

namespace Run

variable {w : Workspace} {g : Nat} {n : NodeRef} {viewed resolved : List Operand} {r r' r'' : Run}

/-- The state has an entry for each input of the node, all of the graph `g`. -/
def Knows (w : Workspace) (g : Nat) (n : NodeRef) (r : Run) : Prop :=
  ∀ x ∈ (w.node n).inputs, x.graph = g ∧ x.index < r.entries.size

theorem Viewed.knows (h : Viewed w g n viewed resolved r r') (hr : r.Knows w g n) :
    r'.Knows w g n :=
  fun x hx => ⟨(hr x hx).1, h.grown.size ▸ (hr x hx).2⟩

/-- Looking at an operand whose lanes have to be copied demands the copies. -/
theorem viewed_write (hr : r.Knows w g n) {x : NodeRef} (hx : x ∈ (w.node n).inputs)
    (hfix : w.laneFix n x ≠ []) :
    Viewed w g n [.node x] [] r
      (r.write (some n) x (.position (w.laneFixExpr n x)) (decide (1 < (r.entry x).readers))) := by
  obtain ⟨hgraph, hsize⟩ := hr x hx
  have hupdate : Update w (some n) x (decide (1 < (r.entry x).readers)) r
      (r.write (some n) x (.position (w.laneFixExpr n x)) (decide (1 < (r.entry x).readers))) :=
    .write hsize _ (by simp)
  refine ⟨hupdate.grown hx hgraph, fun y c => ?_, fun y i s' hs' hconst => ?_,
    fun y i s' hs' hconst hmem => ⟨s', ?_, .inl hmem⟩, fun y e hy => ?_, fun y hy => ?_⟩
  · rw [entry_write hsize]
    split
    · exact Entry.fillFor_write_position ..
    · rfl
  · rw [entry_write hsize] at hs'
    split at hs'
    · exact Entry.lt_length_of_write_position hs' hconst
    · exact (List.getElem?_eq_some_iff.1 hs').1
  · rw [entry_write hsize] at hs'
    split at hs'
    · exact Entry.getElem?_of_write_position hs' hconst
    · exact hs'
  · rw [Demands, Demands, entry_write hsize]
    split
    · rename_i hindex
      obtain rfl : x = y := by cases x; cases y; simp_all
      rw [Entry.demands_write]
      simp [hfix]
    · rename_i hindex
      have hne : y ≠ x := fun h => hindex (by rw [h])
      simp [hne]
  · have hnoted : ((r.write (some n) x (.position (w.laneFixExpr n x))
        (decide (1 < (r.entry x).readers))).entry x).Notes n := by
      rw [entry_write hsize, if_pos rfl]
      exact Entry.notes_write ..
    rw [hupdate.notes_iff hnoted (hgraph.trans hy.symm)]
    refine or_congr_right ⟨?_, ?_⟩
    · rintro rfl
      exact .inl ⟨by simp, hfix⟩
    · rintro (⟨hyx, -⟩ | hnil)
      · simpa using hyx
      · simp at hnil

/-- Looking at an operand whose lanes need no copying changes nothing. -/
theorem viewed_of_laneFix_eq_nil {x : NodeRef} (hfix : w.laneFix n x = []) :
    Viewed w g n [.node x] [] r r := by
  refine viewed_self (fun y hy => ?_) (by simp)
  obtain rfl : y = x := by simpa using hy
  exact hfix

theorem modifyEntry_congr {x : NodeRef} {f f' : Entry → Entry}
    (h : f (r.entry x) = f' (r.entry x)) :
    r.modifyEntry x f = r.modifyEntry x f' := by
  rw [modifyEntry]
  congr 1
  refine Array.ext_getElem? fun i => ?_
  rw [Array.getElem?_modify, Array.getElem?_modify]
  by_cases hi : x.index = i
  · subst hi
    cases hentry : r.entries[x.index]? with
    | none => rfl
    | some e =>
      have he : r.entry x = e := by simp [entry, hentry]
      simp [← he, h]
  · simp [hi]

theorem modifyEntry_eq_self {x : NodeRef} {f : Entry → Entry} (h : f (r.entry x) = r.entry x) :
    r.modifyEntry x f = r := by
  rw [modifyEntry_congr (show f (r.entry x) = id (r.entry x) from h), modifyEntry]
  congr 1
  refine Array.ext_getElem? fun i => ?_
  simp [Array.getElem?_modify]

/-- Relying on what is read already demands no copies. -/
theorem viewed_rely (hr : r.Knows w g n) {x : NodeRef} (hx : x ∈ (w.node n).inputs)
    {p : PaddingValue} (hread : r.read x (some n) = some p) :
    Viewed w g n [] [.node x] r (r.modifyEntry x fun e => e.rely (some n)) := by
  obtain ⟨hgraph, hsize⟩ := hr x hx
  have hupdate : Update w (some n) x (decide (1 < (r.entry x).readers)) r
      (r.modifyEntry x fun e => e.rely (some n)) := .rely hsize
  refine ⟨hupdate.grown hx hgraph, fun y c => ?_, fun y i s' hs' _ => ?_,
    fun y i s' hs' _ hmem => ?_, fun y e hy => ?_, fun y hy => ?_⟩
  · rw [entry_modifyEntry hsize]
    split
    · exact Entry.fillFor_rely ..
    · rfl
  · rw [entry_modifyEntry hsize] at hs'
    have hlt := (List.getElem?_eq_some_iff.1 hs').1
    split at hlt
    · rw [Entry.rely] at hlt
      split at hlt
      · simpa [Entry.modifySetting] using hlt
      · exact hlt
    · exact hlt
  · rw [entry_modifyEntry hsize] at hs'
    split at hs'
    · exact Entry.joins_rely hs' hmem
    · exact ⟨s', hs', .inl hmem⟩
  · rw [Demands, Demands, entry_modifyEntry hsize]
    split
    · simp only [List.not_mem_nil, false_and, or_false]
      rw [Entry.rely]
      split
      · rename_i i hi
        obtain ⟨s₀, v, hs₀, hv, -⟩ := Entry.exists_of_source? hi
        exact Entry.demands_join_constant hs₀ hv
      · rfl
    · simp
  · have hnoted : ((r.modifyEntry x fun e => e.rely (some n)).entry x).Notes n := by
      rw [entry_modifyEntry hsize, if_pos rfl]
      exact Entry.notes_rely hread
    rw [hupdate.notes_iff hnoted (hgraph.trans hy.symm)]
    simp

/-- A node that demanded a setting is noted on it. -/
theorem notes_of_lastDemanded? {x : NodeRef} {i : Nat}
    (h : RunM.lastDemanded? (r.entry x) n = some i) :
    (r.entry x).Notes n := by
  obtain ⟨s, hs, hmem⟩ := exists_of_lastIndex? h
  exact .inl ⟨s, List.mem_of_getElem? hs, by simpa using hmem⟩

/-- A node that demanded a setting is among its targets, if it is for some readers only. -/
theorem modifyEntry_insertLast_eq_self (htidy : r.Tidy) {x : NodeRef} {i : Nat}
    (h : RunM.lastDemanded? (r.entry x) n = some i) :
    (r.modifyEntry x fun e => e.modifySetting i fun s =>
      if s.isTargeted then { s with targets := insertLast s.targets n } else s) = r := by
  obtain ⟨s₀, hs₀, hmem⟩ := exists_of_lastIndex? h
  refine modifyEntry_eq_self ?_
  rw [Entry.modifySetting, modify_eq_self fun s hs => ?_]
  obtain rfl : s₀ = s := Option.some.inj (hs₀.symm.trans hs)
  split
  · rename_i htargeted
    have htargets : s₀.targets = s₀.demandedBy :=
      (htidy x s₀ (List.mem_of_getElem? hs₀)).resolve_left (by
        rintro hnil
        simp [Setting.isTargeted, hnil] at htargeted)
    have hinsert : insertLast s₀.targets n = s₀.targets := by
      rw [insertLast, htargets, if_pos (by simpa using hmem)]
    rw [hinsert]
  · rfl

/-- What a node relies on without having demanded it is for all readers. -/
theorem modifyEntry_addDemand_eq {x : NodeRef} {i : Nat}
    (hlast : RunM.lastDemanded? (r.entry x) n = none)
    (hsource : (r.entry x).source? (some n) = some i) :
    (r.modifyEntry x fun e => e.modifySetting i fun s => s.addDemand (some n) false) =
      r.modifyEntry x fun e => e.rely (some n) := by
  obtain ⟨s₀, v, hs₀, -, hread⟩ := Entry.exists_of_source? hsource
  have hgeneral : s₀.isTargeted = false := by
    rcases hread with ⟨c, hc, hmem⟩ | ⟨hgeneral, -⟩
    · have hnot := lastIndex?_eq_none_iff.1 hlast s₀ (List.mem_of_getElem? hs₀)
      rw [← Option.some.inj hc] at hmem
      exact absurd hmem (by simpa using hnot)
    · exact hgeneral
  refine modifyEntry_congr ?_
  rw [Entry.rely, hsource]
  dsimp only
  rw [Entry.modifySetting, Entry.modifySetting, modify_congr fun s hs => ?_]
  obtain rfl : s₀ = s := Option.some.inj (hs₀.symm.trans hs)
  rw [hgeneral]

theorem modifyEntry_addTarget_eq {x : NodeRef} (hsource : (r.entry x).source? (some n) = none) :
    (r.modifyEntry x fun e => e.addTarget (some n)) = r.modifyEntry x fun e => e.rely (some n) := by
  refine modifyEntry_congr ?_
  rw [Entry.rely, hsource]

end Run

namespace RunM

variable {w : Workspace} {g : Nat} {n : NodeRef} {r r' r'' : Run}

theorem yields_demand_position {c : Option NodeRef} {x : NodeRef} {e : PositionExpr} {u : Unit} :
    (demand w c x (.position e)).Yields r u r' ↔
      r' = r.write c x (.position e) (decide (1 < (r.entry x).readers)) := by
  simp [demand, record]

/-- **Looking at an operand** answers what the padding lanes see there. -/
theorem view_spec (hr : r.Knows w g n) {a : Operand} (ha : a ∈ (w.node n).operands)
    {p : Option PaddingValue} (h : (view w n a).Yields r p r') :
    Run.Viewed w g n [a] [] r r' ∧ p.map PaddingValue.clone = r.sees w n a := by
  cases a with
  | scalar v =>
    obtain ⟨rfl, rfl⟩ := yields_pure.1 h
    exact ⟨Run.viewed_self (by simp) (by simp), rfl⟩
  | symbol name d =>
    obtain ⟨rfl, rfl⟩ := yields_pure.1 h
    exact ⟨Run.viewed_self (by simp) (by simp), rfl⟩
  | node x =>
    have hx : x ∈ (w.node n).inputs := List.mem_filterMap.2 ⟨_, ha, rfl⟩
    -- what is answered once the copies are demanded
    have hanswer : ∀ s : Run, (do
        let own := (← get).read x (some n)
        if ((w.node n).axesIntoPadding (w.node x)).isEmpty then return own
        else if (w.node n).paddingReadsPadding (w.node x) then return some (← need own).meetData
        else
          return some (.ofContent (.dependent (some
            ⟨x, (((w.node n).axesIntoPadding (w.node x)).filterMap id).map Int.ofNat⟩))) :
        RunM (Option PaddingValue)).Yields s p r' →
        r' = s ∧ p.map PaddingValue.clone = s.sees w n (.node x) := by
      intro s hs
      have hrest := yields_get_bind.1 hs
      dsimp only at hrest
      rw [Run.sees]
      by_cases hinto : ((w.node n).axesIntoPadding (w.node x)).isEmpty = true
      · rw [if_pos hinto] at hrest ⊢
        obtain ⟨rfl, rfl⟩ := yields_pure.1 hrest
        exact ⟨rfl, rfl⟩
      · rw [if_neg hinto] at hrest ⊢
        by_cases hpadding : (w.node n).paddingReadsPadding (w.node x) = true
        · rw [if_pos hpadding] at hrest ⊢
          obtain ⟨own, _, hneed, hlast⟩ := yields_bind.1 hrest
          obtain ⟨hown, rfl⟩ := yields_need.1 hneed
          obtain ⟨rfl, rfl⟩ := yields_pure.1 hlast
          rw [hown]
          refine ⟨rfl, congrArg some ?_⟩
          rw [PaddingValue.meetData]
          split <;> rfl
        · rw [if_neg hpadding] at hrest ⊢
          obtain ⟨rfl, rfl⟩ := yields_pure.1 hrest
          exact ⟨rfl, rfl⟩
    simp only [view] at h
    split at h
    · rename_i hfix
      obtain ⟨_, s, hdemand, hrest⟩ := yields_bind.1 h
      obtain rfl := yields_demand_position.1 hdemand
      obtain ⟨rfl, hp⟩ := hanswer _ hrest
      have hviewed := Run.viewed_write hr hx (by simpa [Workspace.laneFix] using hfix)
      exact ⟨hviewed, hp.trans (hviewed.sees_eq _)⟩
    · rename_i hfix
      obtain ⟨rfl, hp⟩ := hanswer _ h
      exact ⟨Run.viewed_of_laneFix_eq_nil (by simpa [Workspace.laneFix] using hfix), hp⟩

/-- What a branch of a selection does after looking at a node: the selection is noted on what it
reads. -/
theorem resolve_note (hr : r.Knows w g n) (htidy : r.Tidy) {x : NodeRef}
    (hx : x ∈ (w.node n).inputs) {seen p : Option PaddingValue}
    (hseen : seen.map PaddingValue.clone = r.sees w n (.node x)) (h : (do
      let e := (← get).entry x
      match lastDemanded? e n with
      | some i =>
        modify fun r => r.modifyEntry x fun e => e.modifySetting i fun s =>
          if s.isTargeted then { s with targets := insertLast s.targets n } else s
        return seen
      | none =>
        match e.source? (some n) with
        | some i =>
          modify fun r => r.modifyEntry x fun e => e.modifySetting i fun s =>
            s.addDemand (some n) false
          return seen
        | none =>
          let _ ← need e.padding
          modify fun r => r.modifyEntry x fun e => e.addTarget (some n)
          if ((w.node n).axesIntoPadding (w.node x)).isEmpty then
            return ((← get).entry x).padding
          else return seen : RunM (Option PaddingValue)).Yields r p r') :
    Run.Viewed w g n [] [.node x] r r' ∧ p.map PaddingValue.clone = r.sees w n (.node x) := by
  have hrest := yields_get_bind.1 h
  dsimp only at hrest
  cases hlast : lastDemanded? (r.entry x) n with
  | some i =>
    rw [hlast] at hrest
    obtain ⟨_, _, hmodify, hpure⟩ := yields_bind.1 hrest
    obtain ⟨rfl, rfl⟩ := yields_pure.1 hpure
    obtain rfl : r' = r :=
      (yields_modify.1 hmodify).trans (Run.modifyEntry_insertLast_eq_self htidy hlast)
    exact ⟨Run.viewed_self (by simp) (by simpa using Run.notes_of_lastDemanded? hlast), hseen⟩
  | none =>
    rw [hlast] at hrest
    dsimp only at hrest
    cases hsource : (r.entry x).source? (some n) with
    | some i =>
      rw [hsource] at hrest
      obtain ⟨_, _, hmodify, hpure⟩ := yields_bind.1 hrest
      obtain ⟨rfl, rfl⟩ := yields_pure.1 hpure
      obtain ⟨s₀, v, hs₀, -, -⟩ := Entry.exists_of_source? hsource
      have hread : r.read x (some n) = some (s₀.padding x) := by
        simp [Run.read, Entry.read, hsource, hs₀]
      rw [yields_modify.1 hmodify, Run.modifyEntry_addDemand_eq hlast hsource]
      exact ⟨Run.viewed_rely hr hx hread, hseen⟩
    | none =>
      rw [hsource] at hrest
      obtain ⟨own, s, hneed, hrest⟩ := yields_bind.1 hrest
      obtain ⟨hown, hs⟩ := yields_need.1 hneed
      subst s
      obtain ⟨_, s, hmodify, hrest⟩ := yields_bind.1 hrest
      have hread : r.read x (some n) = some own := by rw [Run.read, Entry.read, hsource, hown]
      have hviewed := Run.viewed_rely hr hx hread
      rw [← Run.modifyEntry_addTarget_eq hsource, ← yields_modify.1 hmodify] at hviewed
      by_cases hinto : ((w.node n).axesIntoPadding (w.node x)).isEmpty = true
      · rw [if_pos hinto] at hrest
        have hpure := yields_get_bind.1 hrest
        obtain ⟨rfl, rfl⟩ := yields_pure.1 hpure
        refine ⟨hviewed, ?_⟩
        rw [hviewed.grown.padding x, Run.sees, if_pos hinto, Run.read, Entry.read, hsource]
      · rw [if_neg hinto] at hrest
        obtain ⟨rfl, rfl⟩ := yields_pure.1 hrest
        exact ⟨hviewed, hseen⟩

/-- **Resolving a branch** answers what the padding lanes see there. -/
theorem resolveBranch_spec (hr : r.Knows w g n) (htidy : r.Tidy) {a : Operand}
    (ha : a ∈ (w.node n).operands) {p : Option PaddingValue}
    (h : (resolveBranch w n a).Yields r p r') :
    Run.Viewed w g n [a] [a] r r' ∧ p.map PaddingValue.clone = r.sees w n a := by
  obtain ⟨seen, s, hview, hrest⟩ := yields_bind.1 h
  obtain ⟨hviewed, hseen⟩ := view_spec hr ha hview
  cases a with
  | scalar v =>
    obtain ⟨rfl, rfl⟩ := yields_pure.1 hrest
    exact ⟨hviewed.trans (Run.viewed_self (by simp) (by simp)), hseen⟩
  | symbol name d =>
    obtain ⟨rfl, rfl⟩ := yields_pure.1 hrest
    exact ⟨hviewed.trans (Run.viewed_self (by simp) (by simp)), hseen⟩
  | node x =>
    have hx : x ∈ (w.node n).inputs := List.mem_filterMap.2 ⟨_, ha, rfl⟩
    obtain ⟨hnoted, hp⟩ := resolve_note (hviewed.knows hr) (hviewed.grown.tidy htidy) hx
      (hseen.trans (hviewed.sees_eq _).symm) hrest
    exact ⟨hviewed.trans hnoted, hp.trans (hviewed.sees_eq _)⟩

end RunM

/-! ## The equation of a node

What the padding lanes of a node hold is a function of what it sees in its operands. -/

/-- What the padding lanes of a selection hold, by the condition and by what is seen in the
branches. -/
def selectContent (cond : Content) (onTrue onFalse : Option PaddingValue) : Option Content :=
  match cond with
  | .exact v => (if v.value.isZero then onFalse else onTrue).map PaddingValue.content
  | cond => do
    let t ← onTrue
    let f ← onFalse
    if t.sameValue f then return t.content
    else if cond = .unconstrained ∨ t.content = .unconstrained ∨ f.content = .unconstrained then
      return .unconstrained
    else return .dependent none

/-- The branches of a selection that are resolved: only the one taken if the condition is known. -/
def resolvedBranches (cond : Content) (onTrue onFalse : Operand) : List Operand :=
  match cond with
  | .exact v => [if v.value.isZero then onFalse else onTrue]
  | _ => [onTrue, onFalse]

/-- The positions of the operands between which an operator selects, the one taken where the
condition holds first. -/
def Op.branches? : Op → Option (Nat × Nat)
  | .select => some (1, 2)
  | .cmpSel _ => some (2, 3)
  | _ => none

namespace Run

section

variable (w : Workspace) (engine : Engine) (r : Run) (n : NodeRef)

/-- What the padding lanes of the node find in its operand at a position. -/
def seesAt (i : Nat) : Option PaddingValue := (w.node n).operands[i]?.bind (r.sees w n)

/-- What the padding lanes of a comparison of the first two operands hold. -/
def compared (mode : CompareMode) : Option PaddingValue :=
  (r.seesAt w n 0).bind fun left => (r.seesAt w n 1).bind fun right =>
    (engine.platform.comparePadding mode left right).toOption

/-- What the padding lanes of the condition of a selection hold, as the selection sees it. -/
def condition? : Option Content :=
  match (w.node n).op with
  | .select => (r.seesAt w n 0).map PaddingValue.content
  | .cmpSel mode => (r.compared w engine n mode).map PaddingValue.content
  | _ => none

/-- **The equation of a node**: what its padding lanes hold. -/
def infer : Option Content :=
  match (w.node n).op with
  | .placeholder declared =>
    (RunM.simulatePlaceholder engine (w.node n) declared).toOption.map PaddingValue.content
  | .constant v => some (.exact v)
  | .unary fn => (r.seesAt w n 0).bind fun p =>
    (p.unaryPadding (.unary fn) (w.node n).dtype).toOption.map PaddingValue.content
  | .cast => (r.seesAt w n 0).bind fun p =>
    (p.unaryPadding .cast (w.node n).dtype).toOption.map PaddingValue.content
  | .binary fn => (r.seesAt w n 0).bind fun p => (r.seesAt w n 1).bind fun q =>
    (engine.platform.binaryPadding (.binary fn) p q).toOption.map PaddingValue.content
  | .broadcast => (r.seesAt w n 0).map PaddingValue.content
  | .reduce fn axes _ => ((w.node n).operands[0]?.bind Operand.node?).bind fun x =>
    if ((w.node x).paddedAxes.filter (· ∈ axes)).isEmpty then
      (r.read x (some n)).bind fun p =>
        (p.reducePadding (.reduce fn) (RunM.reducedLanes (w.node x) axes)).toOption.map
          PaddingValue.content
    else (engine.platform.neutral (.reduce fn) (w.node x).dtype).toOption.map Content.exact
  | .compare mode => (r.compared w engine n mode).map PaddingValue.content
  | .select => (r.condition? w engine n).bind fun k =>
    selectContent k (r.seesAt w n 1) (r.seesAt w n 2)
  | .cmpSel _ => (r.condition? w engine n).bind fun k =>
    selectContent k (r.seesAt w n 2) (r.seesAt w n 3)
  | _ => none

/-- The operands that a pointwise node looks at: all of them, except that a selection with a known
condition discards a branch. -/
def viewedOperands : List Operand :=
  match (w.node n).op.branches? with
  | none => (w.node n).operands
  | some (t, f) => (w.node n).operands.take t ++
    match r.condition? w engine n with
    | some (.exact v) => (w.node n).operands[if v.value.isZero then f else t]?.toList
    | _ => (w.node n).operands.drop t

/-- The branches that a selection resolves: all of them, or just the one that is taken if the
condition is known. -/
def resolvedOperands : List Operand :=
  match (w.node n).op.branches? with
  | none => []
  | some (t, f) =>
    match r.condition? w engine n with
    | some (.exact v) => (w.node n).operands[if v.value.isZero then f else t]?.toList
    | _ => (w.node n).operands.drop t

end
end Run

namespace RunM

variable {w : Workspace} {g : Nat} {n : NodeRef} {r r' r'' : Run} {engine : Engine}

theorem map_content_of_map_clone {p q : Option PaddingValue} (h : p.map PaddingValue.clone = q) :
    p.map PaddingValue.content = q.map PaddingValue.content := by
  subst h
  cases p <;> rfl

/-- Both branches of a selection are resolved if its condition is not known. -/
theorem resolveBoth_spec (hr : r.Knows w g n) (htidy : r.Tidy) {cond : Content} {t f : Operand}
    (ht : t ∈ (w.node n).operands) (hf : f ∈ (w.node n).operands) {p : Option PaddingValue}
    (h : (do
      let seenTrue ← resolveBranch w n t
      let seenFalse ← resolveBranch w n f
      let t ← need seenTrue
      let f ← need seenFalse
      if t.sameValue f then return some t
      else if cond = .unconstrained ∨ t.content = .unconstrained ∨ f.content = .unconstrained then
        return some .unconstrained
      else return some .dependent : RunM (Option PaddingValue)).Yields r p r') :
    Run.Viewed w g n [t, f] [t, f] r r' ∧ p.map PaddingValue.content = (do
      let t ← r.sees w n t
      let f ← r.sees w n f
      if t.sameValue f then return t.content
      else if cond = .unconstrained ∨ t.content = .unconstrained ∨ f.content = .unconstrained then
        return .unconstrained
      else return .dependent none) := by
  obtain ⟨seenTrue, r₁, htrue, h₁⟩ := yields_bind.1 h
  obtain ⟨seenFalse, r₂, hfalse, h₂⟩ := yields_bind.1 h₁
  obtain ⟨hviewed₁, hp₁⟩ := resolveBranch_spec hr htidy ht htrue
  obtain ⟨hviewed₂, hp₂⟩ :=
    resolveBranch_spec (hviewed₁.knows hr) (hviewed₁.grown.tidy htidy) hf hfalse
  obtain ⟨pt, r₃, hneed₁, h₃⟩ := yields_bind.1 h₂
  obtain ⟨rfl, hr₃⟩ := yields_need.1 hneed₁
  obtain ⟨pf, r₄, hneed₂, h₄⟩ := yields_bind.1 h₃
  obtain ⟨rfl, hr₄⟩ := yields_need.1 hneed₂
  subst r₃ r₄
  rw [hviewed₁.sees_eq] at hp₂
  rw [← hp₁, ← hp₂]
  change _ ∧ p.map PaddingValue.content =
    if pt.sameValue pf then some pt.content
    else if cond = .unconstrained ∨ pt.content = .unconstrained ∨ pf.content = .unconstrained then
      some .unconstrained
    else some (.dependent none)
  by_cases hsame : pt.sameValue pf = true
  · rw [if_pos hsame] at h₄ ⊢
    obtain ⟨rfl, rfl⟩ := yields_pure.1 h₄
    exact ⟨hviewed₁.trans hviewed₂, rfl⟩
  · rw [if_neg hsame] at h₄ ⊢
    by_cases hany : cond = .unconstrained ∨ pt.content = .unconstrained ∨
      pf.content = .unconstrained
    · rw [if_pos hany] at h₄ ⊢
      obtain ⟨rfl, rfl⟩ := yields_pure.1 h₄
      exact ⟨hviewed₁.trans hviewed₂, rfl⟩
    · rw [if_neg hany] at h₄ ⊢
      obtain ⟨rfl, rfl⟩ := yields_pure.1 h₄
      exact ⟨hviewed₁.trans hviewed₂, rfl⟩

/-- **Selecting** resolves the branches that may be taken, and answers by what is seen there. -/
theorem selectPadding_spec (hr : r.Knows w g n) (htidy : r.Tidy) {cond : PaddingValue}
    {t f : Operand} (ht : t ∈ (w.node n).operands) (hf : f ∈ (w.node n).operands)
    {p : Option PaddingValue} (h : (selectPadding w n cond t f).Yields r p r') :
    Run.Viewed w g n (resolvedBranches cond.content t f) (resolvedBranches cond.content t f) r r' ∧
      p.map PaddingValue.content = selectContent cond.content (r.sees w n t) (r.sees w n f) := by
  rw [selectPadding] at h
  cases hcond : cond.content with
  | exact v =>
    simp only [hcond, yields_guard] at h
    obtain ⟨-, h⟩ := h
    rw [resolvedBranches, selectContent]
    split at h
    · rename_i hzero
      obtain ⟨hviewed, hp⟩ := resolveBranch_spec hr htidy hf h
      rw [if_pos hzero, if_pos hzero]
      exact ⟨hviewed, map_content_of_map_clone hp⟩
    · rename_i hzero
      obtain ⟨hviewed, hp⟩ := resolveBranch_spec hr htidy ht h
      rw [if_neg hzero, if_neg hzero]
      exact ⟨hviewed, map_content_of_map_clone hp⟩
  | dependent e =>
    simp only [hcond] at h
    exact resolveBoth_spec hr htidy ht hf h
  | unconstrained =>
    simp only [hcond] at h
    exact resolveBoth_spec hr htidy ht hf h
  | unknown code =>
    simp only [hcond] at h
    exact resolveBoth_spec hr htidy ht hf h

theorem viewPair_spec (hr : r.Knows w g n) {op : OpKind}
    {p : Option PaddingValue × Option PaddingValue} {a b : Operand} {rest : List Operand}
    (hoperands : (w.node n).operands = a :: b :: rest) (h : (viewPair w n op).Yields r p r') :
    Run.Viewed w g n [a, b] [] r r' ∧ p.1.map PaddingValue.clone = r.sees w n a ∧
      p.2.map PaddingValue.clone = r.sees w n b := by
  simp only [viewPair, hoperands, yields_bind, yields_operand, List.getElem?_cons_zero,
    List.getElem?_cons_succ, yields_guard] at h
  obtain ⟨_, _, ⟨ha, rfl⟩, _, _, ⟨hb, rfl⟩, -, left, r₁, hleft, right, r₂, hright, hpure⟩ := h
  obtain rfl := Option.some.inj ha
  obtain rfl := Option.some.inj hb
  obtain ⟨rfl, rfl⟩ := yields_pure.1 hpure
  obtain ⟨hviewed₁, hp₁⟩ := view_spec hr (by simp [hoperands]) hleft
  obtain ⟨hviewed₂, hp₂⟩ := view_spec (hviewed₁.knows hr) (by simp [hoperands]) hright
  exact ⟨hviewed₁.trans hviewed₂, hp₁, hp₂.trans (hviewed₁.sees_eq _)⟩

theorem simulateCompare_spec (hr : r.Knows w g n) {op : OpKind} {mode : CompareMode}
    {p : PaddingValue} {a b : Operand} {rest : List Operand}
    (hoperands : (w.node n).operands = a :: b :: rest)
    (h : (simulateCompare w engine n op mode).Yields r p r') :
    Run.Viewed w g n [a, b] [] r r' ∧ r.compared w engine n mode = some p := by
  obtain ⟨⟨left, right⟩, r₁, hpair, h₁⟩ := yields_bind.1 h
  obtain ⟨hviewed, hleft, hright⟩ := viewPair_spec hr hoperands hpair
  simp only [yields_bind, yields_need, yields_lift] at h₁
  obtain ⟨pl, _, ⟨rfl, rfl⟩, pr, _, ⟨rfl, rfl⟩, hp, rfl⟩ := h₁
  refine ⟨hviewed, ?_⟩
  have hp' : engine.platform.comparePadding mode pl.clone pr.clone = .ok p := hp
  simp only [Run.compared, Run.seesAt, hoperands, List.getElem?_cons_zero, List.getElem?_cons_succ,
    Option.bind_some, ← hleft, ← hright, Option.map_some, hp']
  rfl

/-- Nothing is looked at by a placeholder or a constant. -/
theorem simulate_leaf (harity : (w.node n).op.kind.arity? = some 0) {p : PaddingValue}
    (h : (simulate w engine n).Yields r p r') :
    r' = r ∧ r.infer w engine n = some p.content := by
  rw [simulate] at h
  cases hop : (w.node n).op with
  | placeholder declared =>
    simp only [hop, yields_lift] at h
    obtain ⟨hp, rfl⟩ := h
    refine ⟨rfl, ?_⟩
    simp only [Run.infer, hop, hp]
    rfl
  | constant v =>
    simp only [hop, yields_pure] at h
    obtain ⟨rfl, rfl⟩ := h
    refine ⟨rfl, ?_⟩
    simp only [Run.infer, hop]
    rfl
  | invalid => simp [hop] at h
  | unknown code => simp [hop] at h
  | _ => simp [hop, Op.kind, OpKind.arity?] at harity

/-- The operands of a node, as many as its operator takes. -/
theorem exists_operands (harity : (w.node n).op.kind.arity? = some (w.node n).operands.length) :
    match (w.node n).op with
    | .unary _ | .cast | .broadcast | .reduce _ _ _ => ∃ a, (w.node n).operands = [a]
    | .binary _ | .compare _ => ∃ a b, (w.node n).operands = [a, b]
    | .select => ∃ c t f, (w.node n).operands = [c, t, f]
    | .cmpSel _ => ∃ a b t f, (w.node n).operands = [a, b, t, f]
    | _ => True := by
  cases hop : (w.node n).op <;>
    simp only [hop, Op.kind, OpKind.arity?, Option.some.injEq] at harity ⊢
  · exact List.length_eq_one_iff.1 harity.symm
  · exact List.length_eq_one_iff.1 harity.symm
  · exact List.length_eq_two.1 harity.symm
  · exact List.length_eq_one_iff.1 harity.symm
  · exact List.length_eq_one_iff.1 harity.symm
  · exact List.length_eq_two.1 harity.symm
  · exact List.length_eq_three.1 harity.symm
  · generalize (w.node n).operands = l at harity
    rcases l with _ | ⟨a, _ | ⟨b, _ | ⟨t, _ | ⟨f, _ | _⟩⟩⟩⟩ <;> simp at harity ⊢

/-- A node that selects nothing looks at all its operands. -/
theorem operands_of_branches?_eq_none (h : (w.node n).op.branches? = none)
    (engine : Engine) (r : Run) :
    r.viewedOperands w engine n = (w.node n).operands ∧ r.resolvedOperands w engine n = [] := by
  simp only [Run.viewedOperands, Run.resolvedOperands, h, and_self]

/-- A selection looks at what its condition depends on and at the branches that are resolved. -/
theorem operands_of_branches?_eq_some {before : List Operand} {t f : Operand} {cond : Content}
    (h : (w.node n).op.branches? = some (before.length, before.length + 1))
    (hoperands : (w.node n).operands = before ++ [t, f])
    (hcond : r.condition? w engine n = some cond) :
    r.viewedOperands w engine n = before ++ resolvedBranches cond t f ∧
      r.resolvedOperands w engine n = resolvedBranches cond t f := by
  simp only [Run.viewedOperands, Run.resolvedOperands, h, hoperands, hcond, List.take_left,
    List.drop_left]
  cases cond with
  | exact v => cases hzero : v.value.isZero <;> simp [resolvedBranches, hzero]
  | _ => exact ⟨rfl, rfl⟩

section Pointwise

variable (hr : r.Knows w g n) {p : PaddingValue}
include hr

/-- A function of one operand, or a conversion. -/
theorem unaryPadding_spec {a : Operand} (ha : (w.node n).operands = [a]) {op : OpKind}
    (h : (do
      let p ← need (← view w n (← operand (w.node n) 0))
      lift (p.unaryPadding op (w.node n).dtype) : RunM PaddingValue).Yields r p r') :
    Run.Viewed w g n [a] [] r r' ∧ ((r.seesAt w n 0).bind fun q =>
      (q.unaryPadding op (w.node n).dtype).toOption.map PaddingValue.content) = some p.content := by
  simp only [ha, yields_bind, yields_operand, yields_need, yields_lift,
    List.getElem?_cons_zero] at h
  obtain ⟨_, _, ⟨hb, rfl⟩, _, _, hview, q, _, ⟨rfl, rfl⟩, hq, rfl⟩ := h
  obtain rfl := Option.some.inj hb
  obtain ⟨hviewed, hseen⟩ := view_spec hr (by simp [ha]) hview
  have hq' : q.clone.unaryPadding op (w.node n).dtype = .ok p := hq
  refine ⟨hviewed, ?_⟩
  simp only [Run.seesAt, ha, List.getElem?_cons_zero, Option.bind_some, ← hseen,
    Option.map_some, hq']
  rfl

theorem simulate_unary {a : Operand}
    (hop : (∃ fn, (w.node n).op = .unary fn) ∨ (w.node n).op = .cast)
    (ha : (w.node n).operands = [a]) (h : (simulate w engine n).Yields r p r') :
    Run.Viewed w g n [a] [] r r' ∧ r.infer w engine n = some p.content := by
  rw [simulate] at h
  rcases hop with ⟨fn, hop⟩ | hop
  all_goals
    simp only [hop] at h
    obtain ⟨hviewed, hcontent⟩ := unaryPadding_spec hr ha h
    refine ⟨hviewed, ?_⟩
    simp only [Run.infer, hop]
    exact hcontent

theorem simulate_broadcast {a : Operand} (hop : (w.node n).op = .broadcast)
    (ha : (w.node n).operands = [a]) (h : (simulate w engine n).Yields r p r') :
    Run.Viewed w g n [a] [] r r' ∧ r.infer w engine n = some p.content := by
  rw [simulate] at h
  simp only [hop, ha, yields_bind, yields_operand, yields_need, List.getElem?_cons_zero] at h
  obtain ⟨_, _, ⟨hb, rfl⟩, _, _, hview, rfl, rfl⟩ := h
  obtain rfl := Option.some.inj hb
  obtain ⟨hviewed, hseen⟩ := view_spec hr (by simp [ha]) hview
  refine ⟨hviewed, ?_⟩
  simp only [Run.infer, Run.seesAt, hop, ha, List.getElem?_cons_zero, Option.bind_some, ← hseen,
    Option.map_some]
  rfl

theorem simulate_binary {fn : BinaryFn} {a b : Operand} (hop : (w.node n).op = .binary fn)
    (hab : (w.node n).operands = [a, b]) (h : (simulate w engine n).Yields r p r') :
    Run.Viewed w g n [a, b] [] r r' ∧ r.infer w engine n = some p.content := by
  rw [simulate] at h
  simp only [hop, yields_bind, yields_need, yields_lift] at h
  obtain ⟨⟨_, _⟩, _, hpair, left, _, ⟨rfl, rfl⟩, right, _, ⟨rfl, rfl⟩, hp, rfl⟩ := h
  obtain ⟨hviewed, hleft, hright⟩ := viewPair_spec hr hab hpair
  have hp' : engine.platform.binaryPadding (.binary fn) left.clone right.clone = .ok p := hp
  refine ⟨hviewed, ?_⟩
  simp only [Run.infer, Run.seesAt, hop, hab, List.getElem?_cons_zero, List.getElem?_cons_succ,
    Option.bind_some, ← hleft, ← hright, Option.map_some, hp']
  rfl

theorem simulate_compare {mode : CompareMode} {a b : Operand} (hop : (w.node n).op = .compare mode)
    (hab : (w.node n).operands = [a, b]) (h : (simulate w engine n).Yields r p r') :
    Run.Viewed w g n [a, b] [] r r' ∧ r.infer w engine n = some p.content := by
  rw [simulate] at h
  simp only [hop] at h
  obtain ⟨hviewed, hcompared⟩ := simulateCompare_spec hr hab h
  refine ⟨hviewed, ?_⟩
  simp only [Run.infer, hop, hcompared]
  rfl

variable (htidy : r.Tidy)
include htidy

theorem simulate_select {c t f : Operand} (hop : (w.node n).op = .select)
    (hctf : (w.node n).operands = [c, t, f]) (h : (simulate w engine n).Yields r p r') :
    ∃ cond, r.condition? w engine n = some cond ∧
      Run.Viewed w g n ([c] ++ resolvedBranches cond t f) (resolvedBranches cond t f) r r' ∧
      r.infer w engine n = some p.content := by
  rw [simulate] at h
  simp only [hop, hctf, yields_bind, yields_operand, yields_need, List.getElem?_cons_zero,
    List.getElem?_cons_succ] at h
  obtain ⟨_, r₀, ⟨hc, hr₀⟩, _, r₁, hview, cond, _, ⟨rfl, rfl⟩, _, _, ⟨ht, rfl⟩, _, _,
    ⟨hf, rfl⟩, _, _, hselect, rfl, rfl⟩ := h
  subst r₀
  obtain rfl := Option.some.inj hc
  obtain rfl := Option.some.inj ht
  obtain rfl := Option.some.inj hf
  obtain ⟨hviewed₁, hseen⟩ := view_spec hr (by simp [hctf]) hview
  obtain ⟨hviewed₂, hp⟩ := selectPadding_spec (hviewed₁.knows hr) (hviewed₁.grown.tidy htidy)
    (by simp [hctf]) (by simp [hctf]) hselect
  rw [hviewed₁.sees_eq, hviewed₁.sees_eq] at hp
  have hcond : r.condition? w engine n = some cond.content := by
    simp only [Run.condition?, Run.seesAt, hop, hctf, List.getElem?_cons_zero,
      Option.bind_some, ← hseen]
    rfl
  refine ⟨cond.content, hcond, hviewed₁.trans hviewed₂, ?_⟩
  simp only [Run.infer, Run.seesAt, hop, hctf, hcond, List.getElem?_cons_zero,
    List.getElem?_cons_succ, Option.bind_some, ← hp]
  rfl

theorem simulate_cmpSel {mode : CompareMode} {a b t f : Operand}
    (hop : (w.node n).op = .cmpSel mode) (habtf : (w.node n).operands = [a, b, t, f])
    (h : (simulate w engine n).Yields r p r') :
    ∃ cond, r.condition? w engine n = some cond ∧
      Run.Viewed w g n ([a, b] ++ resolvedBranches cond t f) (resolvedBranches cond t f) r r' ∧
      r.infer w engine n = some p.content := by
  rw [simulate] at h
  simp only [hop, habtf, yields_bind, yields_operand, yields_need, List.getElem?_cons_zero,
    List.getElem?_cons_succ] at h
  obtain ⟨cond, r₁, hcompare, _, _, ⟨ht, rfl⟩, _, _, ⟨hf, rfl⟩, _, _, hselect, rfl, rfl⟩ := h
  obtain rfl := Option.some.inj ht
  obtain rfl := Option.some.inj hf
  obtain ⟨hviewed₁, hcompared⟩ := simulateCompare_spec hr habtf hcompare
  obtain ⟨hviewed₂, hp⟩ := selectPadding_spec (hviewed₁.knows hr) (hviewed₁.grown.tidy htidy)
    (by simp [habtf]) (by simp [habtf]) hselect
  rw [hviewed₁.sees_eq, hviewed₁.sees_eq] at hp
  have hcond : r.condition? w engine n = some cond.content := by
    simp only [Run.condition?, hop, hcompared]
    rfl
  refine ⟨cond.content, hcond, hviewed₁.trans hviewed₂, ?_⟩
  simp only [Run.infer, Run.seesAt, hop, habtf, hcond, List.getElem?_cons_zero,
    List.getElem?_cons_succ, Option.bind_some, ← hp]
  rfl

/-- **Simulating a pointwise node** looks at its operands and answers by its equation. -/
theorem simulate_pointwise (harity : (w.node n).op.kind.arity? = some (w.node n).operands.length)
    (hop : (w.node n).op.isPointwise = true) (h : (simulate w engine n).Yields r p r') :
    Run.Viewed w g n (r.viewedOperands w engine n) (r.resolvedOperands w engine n) r r' ∧
      r.infer w engine n = some p.content := by
  have hoperands := exists_operands harity
  have hplain : ∀ {viewed}, (w.node n).op.branches? = none → (w.node n).operands = viewed →
      Run.Viewed w g n viewed [] r r' ∧ r.infer w engine n = some p.content →
      Run.Viewed w g n (r.viewedOperands w engine n) (r.resolvedOperands w engine n) r r' ∧
        r.infer w engine n = some p.content := by
    intro viewed hnone hviewed hspec
    obtain ⟨hall, hresolved⟩ := operands_of_branches?_eq_none hnone engine r
    rwa [hall, hresolved, hviewed]
  cases hnode : (w.node n).op with
  | unary fn =>
    rw [hnode] at hoperands
    obtain ⟨a, ha⟩ := hoperands
    exact hplain (by rw [hnode]; rfl) ha (simulate_unary hr (.inl ⟨fn, hnode⟩) ha h)
  | cast =>
    rw [hnode] at hoperands
    obtain ⟨a, ha⟩ := hoperands
    exact hplain (by rw [hnode]; rfl) ha (simulate_unary hr (.inr hnode) ha h)
  | broadcast =>
    rw [hnode] at hoperands
    obtain ⟨a, ha⟩ := hoperands
    exact hplain (by rw [hnode]; rfl) ha (simulate_broadcast hr hnode ha h)
  | binary fn =>
    rw [hnode] at hoperands
    obtain ⟨a, b, hab⟩ := hoperands
    exact hplain (by rw [hnode]; rfl) hab (simulate_binary hr hnode hab h)
  | compare mode =>
    rw [hnode] at hoperands
    obtain ⟨a, b, hab⟩ := hoperands
    exact hplain (by rw [hnode]; rfl) hab (simulate_compare hr hnode hab h)
  | select =>
    rw [hnode] at hoperands
    obtain ⟨c, t, f, hctf⟩ := hoperands
    obtain ⟨cond, hcond, hspec⟩ := simulate_select hr htidy hnode hctf h
    have hbranches : (w.node n).op.branches? = some ([c].length, [c].length + 1) := by
      rw [hnode]; rfl
    obtain ⟨hviewed, hresolved⟩ := operands_of_branches?_eq_some hbranches hctf hcond
    rwa [hviewed, hresolved]
  | cmpSel mode =>
    rw [hnode] at hoperands
    obtain ⟨a, b, t, f, habtf⟩ := hoperands
    obtain ⟨cond, hcond, hspec⟩ := simulate_cmpSel hr htidy hnode habtf h
    have hbranches : (w.node n).op.branches? = some ([a, b].length, [a, b].length + 1) := by
      rw [hnode]; rfl
    obtain ⟨hviewed, hresolved⟩ := operands_of_branches?_eq_some hbranches habtf hcond
    rwa [hviewed, hresolved]
  | _ => simp [hnode, Op.isPointwise] at hop

end Pointwise

/-! ## Demanding constants -/

theorem yields_record_constant {c : Option NodeRef} {x : NodeRef} {v : Scalar}
    {t : Bool} {u : Unit} :
    (record w c x (.constant v) t).Yields r u r' ↔
      v.dtype = (w.node x).dtype ∧ ∃ current, r.read x c = some current ∧
        r' = if current.isExact v then r.modifyEntry x (fun e => e.rely c)
          else r.write c x (.constant v) t := by
  simp only [record, yields_guard, not_not, yields_bind, yields_get, yields_need]
  refine and_congr_right fun _ => ?_
  constructor
  · rintro ⟨_, _, ⟨rfl, rfl⟩, current, _, ⟨hcurrent, rfl⟩, h⟩
    refine ⟨current, hcurrent, ?_⟩
    split at h
    · rename_i hexact
      rw [if_pos hexact, yields_modify.1 h]
    · rename_i hexact
      rw [if_neg hexact, yields_modify.1 h]
  · rintro ⟨current, hcurrent, h⟩
    refine ⟨r, r, ⟨rfl, rfl⟩, current, r, ⟨hcurrent, rfl⟩, ?_⟩
    split at h
    · rename_i hexact
      rw [if_pos hexact]
      exact yields_modify.2 h
    · rename_i hexact
      rw [if_neg hexact]
      exact yields_modify.2 h

theorem yields_demand_constant {c : Option NodeRef} {x : NodeRef} {v : Scalar} {u : Unit} :
    (demand w c x (.constant v)).Yields r u r' ↔
      v.dtype = (w.node x).dtype ∧ ∃ current, r.read x c = some current ∧
        r' = if current.isExact v then r.modifyEntry x (fun e => e.rely c)
          else r.write c x (.constant v) (decide (1 < (r.entry x).readers)) := by
  rw [← yields_record_constant (u := u)]
  simp [demand]

/-- A consumer that demands its first constant reads it afterwards, also if it had been there
already. -/
theorem reads_of_demand {c x : NodeRef} (hsize : x.index < r.entries.size) {v : Scalar}
    (hfresh : ∀ s ∈ (r.entry x).settings, s.demanded? (some c) = none) {current : PaddingValue}
    (hcurrent : r.read x (some c) = some current) {t : Bool}
    (hr' : r' = if current.isExact v then r.modifyEntry x (fun e => e.rely (some c))
      else r.write (some c) x (.constant v) t) :
    ∃ q, r'.read x (some c) = some q ∧ q.isExact v = true := by
  split at hr'
  · rename_i hexact
    subst hr'
    have hentry : (r.modifyEntry x fun e => e.rely (some c)).entry x =
        (r.entry x).rely (some c) := by
      rw [Run.entry_modifyEntry hsize, if_pos rfl]
    have hread := Run.read_congr (r := r) (x := x) (c := some c)
      (hentry ▸ Entry.fillFor_rely (r.entry x) (some c) (some c))
      (hentry ▸ (Entry.grows_rely (r.entry x) (some c) false).map_clone)
    rw [hcurrent] at hread
    obtain ⟨q, hq, hclone⟩ := Option.map_eq_some_iff.1 hread
    refine ⟨q, hq, ?_⟩
    have hcontent : q.clone.content = current.clone.content := by rw [hclone]
    change q.content = current.content at hcontent
    rw [PaddingValue.isExact, hcontent]
    exact hexact
  · rename_i hexact
    subst hr'
    obtain ⟨u, hu, huv⟩ := Entry.exists_fillFor_write hfresh v t
    refine ⟨⟨.exact u, some x, []⟩, ?_, huv⟩
    rw [Run.read, Entry.read_eq, Run.entry_write hsize, if_pos rfl, hu]

/-- **Simulating a reduction** over axes with padding lanes makes it read the neutral element there;
any other reduction leaves the state alone. -/
theorem simulate_reduce (hr : r.Knows w g n) {fn : ReduceFn} {axes : List Nat}
    {keep : Bool} {x : NodeRef} (hop : (w.node n).op = .reduce fn axes keep)
    (hoperands : (w.node n).operands = [.node x])
    (hfresh : ∀ s ∈ (r.entry x).settings, s.demanded? (some n) = none) {p : PaddingValue}
    (h : (simulate w engine n).Yields r p r') :
    Run.Grown w g (some n) (· ∈ (w.node n).inputs) r r' ∧ r'.infer w engine n = some p.content ∧
      (((w.node x).paddedAxes.filter (· ∈ axes)).isEmpty = true → r' = r) ∧
      (((w.node x).paddedAxes.filter (· ∈ axes)).isEmpty = false →
        ∃ v, engine.platform.neutral (.reduce fn) (w.node x).dtype = .ok v ∧
          (∃ q, r'.read x (some n) = some q ∧ q.isExact v = true) ∧
          ∃ current, r.read x (some n) = some current ∧
            r' = if current.isExact v then r.modifyEntry x (fun e => e.rely (some n))
              else r.write (some n) x (.constant v) (decide (1 < (r.entry x).readers))) := by
  have hx : x ∈ (w.node n).inputs := by simp [Node.inputs, hoperands, Operand.node?]
  obtain ⟨hgraph, hsize⟩ := hr x hx
  simp only [simulate, hop, simulateReduce, hoperands, yields_bind, yields_operand,
    List.getElem?_cons_zero] at h
  obtain ⟨_, r₀, ⟨ha, hr₀⟩, h⟩ := h
  subst r₀
  obtain rfl := Option.some.inj ha
  simp only [Operand.node?] at h
  have hinfer : ∀ s : Run, s.infer w engine n =
      if ((w.node x).paddedAxes.filter (· ∈ axes)).isEmpty then
        (s.read x (some n)).bind fun p =>
          (p.reducePadding (.reduce fn) (reducedLanes (w.node x) axes)).toOption.map
            PaddingValue.content
      else (engine.platform.neutral (.reduce fn) (w.node x).dtype).toOption.map Content.exact := by
    intro s
    simp only [Run.infer, hop, hoperands, List.getElem?_cons_zero, Option.bind_some, Operand.node?]
  by_cases hpadded : ((w.node x).paddedAxes.filter (· ∈ axes)).isEmpty = true
  · rw [if_pos hpadded] at h
    simp only [yields_bind, yields_get, yields_need, yields_lift] at h
    obtain ⟨_, r₁, ⟨hs, hr₁⟩, q, r₂, ⟨hq, hr₂⟩, hp, hr'⟩ := h
    subst hs r₁ r₂ r'
    refine ⟨.refl .., ?_, fun _ => rfl, fun hfalse => absurd (hpadded.symm.trans hfalse) (by simp)⟩
    rw [hinfer, if_pos hpadded, hq, Option.bind_some, hp]
    rfl
  · rw [if_neg hpadded] at h
    simp only [yields_bind, yields_lift, yields_demand_constant, yields_pure] at h
    obtain ⟨v, r₁, ⟨hv, hr₁⟩, _, r₂, ⟨hdtype, current, hcurrent, hr₂⟩, rfl, hr'⟩ := h
    subst r₁ hr'
    obtain ⟨q, hq, hexact⟩ := reads_of_demand hsize hfresh hcurrent hr₂
    refine ⟨?_, ?_, fun htrue => absurd htrue hpadded,
      fun _ => ⟨v, hv, ⟨q, hq, hexact⟩, current, hcurrent, hr₂⟩⟩
    · rw [hr₂]
      split
      · exact (Run.Update.rely hsize).grown hx hgraph
      · exact (Run.Update.write hsize _ (by simp [hdtype])).grown hx hgraph
    · rw [hinfer, if_neg hpadded, hv]
      rfl

end RunM
end LanePadding
