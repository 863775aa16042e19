import LanePadding.Proofs.Invariant

/-!
# What an analysis ends with

`Engine.analyze` simulates the nodes that the roots depend on and then requires zeros in the padding
lanes of the outputs.  The second pass adds settings after all simulation is over, and none of them
reaches a consumer: an output that others read gets its zeros for its own store only.

## What is here

* `Run.coherent_initial` — the state that an analysis starts from is coherent.
* `Run.Outcome` — what holds of a state once all nodes are simulated.
* `Run.Outcome.requireOutput` — zeros for an output keep it so.
* `Engine.outcome_of_analyze` — hence it holds of every analysis that succeeds.
* `Workspace.Built.exists_analyze` — an analysis of a graph at hand is run by deciding.
-/

set_option autoImplicit false

namespace LanePadding

/-- What is done for an output: nothing if it has no padding lanes or holds zeros already, and
otherwise zeros are recorded, for its own store if others read it. -/
theorem RunM.yields_requireOutput {w : Workspace} {root : NodeRef} {r r' : Run} {u : Unit} :
    (requireOutput w root).Yields r u r' ↔
      (w.node root).hasPadding = false ∧ r' = r ∨
      (w.node root).hasPadding = true ∧ ∃ zero current, Scalar.zero (w.node root).dtype = .ok zero ∧
        r.read root none = some current ∧
        (current.isExact zero = true ∧ r' = r ∨
          current.isExact zero = false ∧
            (record w (if 1 < (r.entry root).readers then some root else none) root (.constant zero)
              (decide (1 < (r.entry root).readers))).Yields r u r') := by
  have hrecord : ∀ zero, (do
      if 1 < ((← get).entry root).readers then record w (some root) root (.constant zero) true
      else record w none root (.constant zero) false : RunM Unit).Yields r u r' ↔
        (record w (if 1 < (r.entry root).readers then some root else none) root (.constant zero)
          (decide (1 < (r.entry root).readers))).Yields r u r' := by
    intro zero
    rw [yields_get_bind]
    by_cases hreaders : 1 < (r.entry root).readers <;> simp [hreaders]
  unfold requireOutput
  dsimp only
  cases (w.node root).hasPadding with
  | false => simp
  | true =>
    simp only [if_true, yields_bind, yields_lift, RunError.ofScalar_eq_ok, yields_get, yields_need,
      reduceCtorEq, false_and, false_or, true_and]
    constructor
    · rintro ⟨zero, _, ⟨hzero, rfl⟩, _, _, ⟨rfl, rfl⟩, current, _, ⟨hcurrent, rfl⟩, hrest⟩
      refine ⟨zero, current, hzero, hcurrent, ?_⟩
      cases hexact : current.isExact zero with
      | true => exact .inl ⟨rfl, by simpa [hexact] using hrest⟩
      | false => exact .inr ⟨rfl, (hrecord zero).1 (by simpa [hexact] using hrest)⟩
    · rintro ⟨zero, current, hzero, hcurrent, hrest⟩
      refine ⟨zero, r, ⟨hzero, rfl⟩, r, r, ⟨rfl, rfl⟩, current, r, ⟨hcurrent, rfl⟩, ?_⟩
      rcases hrest with ⟨hexact, rfl⟩ | ⟨hexact, h⟩
      · simp [hexact]
      · simpa [hexact] using (hrecord zero).2 h

namespace Run

variable {w : Workspace} {engine : Engine} {g : Nat} {nodes outputs : List NodeRef} {root : NodeRef}
  {r r' : Run}

/-! ## The start -/

theorem entry_initial {x : NodeRef} (hx : x.graph = g) (hhas : w.Has x) :
    (initial w g nodes outputs).entry x =
      { Entry.blank with
        consumers := nodes.filter fun n => x ∈ (w.node n).inputs
        readers := (nodes.filter fun n => x ∈ (w.node n).inputs).length +
          if x ∈ outputs then 1 else 0 } := by
  subst hx
  have hat : (w.allNodes x.graph)[x.index]? = some x := by
    rw [Workspace.allNodes, List.getElem?_map, List.getElem?_range hhas]
    rfl
  simp [entry, initial, hat]

theorem entry_initial_settings (x : NodeRef) :
    ((initial w g nodes outputs).entry x).settings = [] := by
  simp only [entry, initial, Array.getD_eq_getD_getElem?, List.getElem?_toArray, List.getElem?_map]
  cases (w.allNodes g)[x.index]? <;> rfl

theorem entry_initial_padding (x : NodeRef) :
    ((initial w g nodes outputs).entry x).padding = none := by
  simp only [entry, initial, Array.getD_eq_getD_getElem?, List.getElem?_toArray, List.getElem?_map]
  cases (w.allNodes g)[x.index]? <;> rfl

/-- Before anything is simulated, the entries are coherent. -/
theorem coherent_initial (w : Workspace) (g : Nat) (nodes outputs : List NodeRef) :
    Coherent w g nodes outputs [] (initial w g nodes outputs) where
  size := by simp [initial, Workspace.allNodes]
  consumers x hx hhas := by rw [entry_initial hx hhas]
  readers x hx hhas := by rw [entry_initial hx hhas]
  blank x hx hhas _ := by
    rw [entry_initial hx hhas]
    exact ⟨rfl, rfl⟩
  tidy x s hs := by simp [entry_initial_settings] at hs
  emits x _ := by
    rw [Emits, entry_initial_settings]
    rfl
  demanders x _ s hs := by simp [entry_initial_settings] at hs
  noted x hx := by simp at hx
  positions x _ s hs := by simp [entry_initial_settings] at hs

/-! ## The end -/

/-- What holds of a state once all nodes are simulated. -/
structure Outcome (w : Workspace) (engine : Engine) (g : Nat)
    (nodes outputs : List NodeRef) (r : Run) :
    Prop extends Counts w g nodes outputs r where
  settled : ∀ x ∈ nodes, Settled w engine r x
  tidy : r.Tidy
  emits : ∀ x, x.graph = g → r.Emits x
  /-- Copies of lane 0 are demanded by consumers, and for all readers only by a single one. -/
  positions : ∀ x, x.graph = g → ∀ s ∈ (r.entry x).settings, s.constant? = none →
    s.demandedBy ≠ [] ∧ (∀ c ∈ s.demandedBy, c ∈ (r.entry x).consumers) ∧
      (s.targets = [] → (r.entry x).readers ≤ 1)

theorem Coherent.outcome (hr : Coherent w g nodes outputs nodes r)
    (hsettled : ∀ x ∈ nodes, Settled w engine r x) : Outcome w engine g nodes outputs r where
  toCounts := hr.toCounts
  settled := hsettled
  tidy := hr.tidy
  emits := hr.emits
  positions x hx s hs hconst :=
    ⟨(hr.positions x hx s hs hconst).1, fun c hc => (hr.demanders x hx s hs c hc).1,
      (hr.positions x hx s hs hconst).2⟩

/-! ## Outputs -/

/-- The state after zeros were required for the output `root`: only constants of the output change,
and only for its own store if others read it. -/
structure Required (w : Workspace) (g : Nat) (root : NodeRef) (r r' : Run) : Prop where
  grown : Grown w g (if 1 < (r.entry root).readers then some root else none) (· = root) r r'
  positions : ∀ x, ∀ s ∈ (r'.entry x).settings, s.constant? = none → s ∈ (r.entry x).settings

theorem Required.refl (w : Workspace) (g : Nat) (root : NodeRef) (r : Run) :
    Required w g root r r :=
  ⟨.refl .., fun _ _ hs _ => hs⟩

/-- Relying on a constant or writing one leaves copies of lane 0 alone. -/
theorem mem_of_rely {e : Entry} {c : Option NodeRef} {s : Setting} (hs : s ∈ (e.rely c).settings)
    (hconst : s.constant? = none) : s ∈ e.settings := by
  rw [Entry.rely] at hs
  split at hs
  · rename_i i hi
    obtain ⟨s₀, v, hs₀, hv, -⟩ := Entry.exists_of_source? hi
    rcases mem_modify hs with hs | ⟨b, hb, rfl⟩
    · exact hs
    · obtain rfl : s₀ = b := Option.some.inj (hs₀.symm.trans hb)
      rw [Setting.constant?_addDemand, hv] at hconst
      exact absurd hconst (by simp)
  · exact hs

theorem mem_of_write_constant {e : Entry} {c : Option NodeRef} {v : Scalar} {t : Bool} {s : Setting}
    (hs : s ∈ (e.write c (.constant v) t).settings) (hconst : s.constant? = none) :
    s ∈ e.settings := by
  rw [Entry.write] at hs
  split at hs
  · rename_i i hi
    obtain ⟨s₀, hs₀, hfill, -⟩ := Entry.exists_of_settingOf? hi
    obtain ⟨u, hu, -⟩ := Entry.exists_constant?_of_equal hfill
    rcases mem_modify hs with hs | ⟨b, hb, rfl⟩
    · exact hs
    · obtain rfl : s₀ = b := Option.some.inj (hs₀.symm.trans hb)
      rw [Setting.constant?_addDemand, hu] at hconst
      exact absurd hconst (by simp)
  · rcases List.mem_append.1 hs with hs | hs
    · exact hs
    · obtain rfl := List.mem_singleton.1 hs
      simp [Setting.constant?] at hconst

/-- Requiring a constant of an output, for its own store if others read it. -/
theorem required_of_record (hgraph : root.graph = g) (hsize : root.index < r.entries.size)
    {c : Option NodeRef} (hc : c = if 1 < (r.entry root).readers then some root
      else none) {v : Scalar}
    {u : Unit}
    (h : (RunM.record w c root (.constant v) (decide (1 < (r.entry root).readers))).Yields r u r') :
    Required w g root r r' := by
  obtain ⟨hdtype, current, -, hr'⟩ := RunM.yields_record_constant.1 h
  split at hr'
  · subst hr'
    refine ⟨hc ▸ (Update.rely hsize).grown rfl hgraph, fun x s hs hconst => ?_⟩
    rw [entry_modifyEntry hsize] at hs
    split at hs
    · exact mem_of_rely hs hconst
    · exact hs
  · subst hr'
    refine ⟨hc ▸ (Update.write hsize _ (by simp [hdtype])).grown rfl hgraph,
      fun x s hs hconst => ?_⟩
    rw [entry_write hsize] at hs
    split at hs
    · exact mem_of_write_constant hs hconst
    · exact hs

/-- A node outside of its graph has no lanes at all. -/
theorem has_of_hasPadding {x : NodeRef} (h : (w.node x).hasPadding = true) : w.Has x := by
  by_contra hnot
  have hmissing : w.node x = .missing := by
    rw [Workspace.node, Graph.node, Array.getD_eq_getD_getElem?,
      Array.getElem?_eq_none (Nat.not_lt.1 hnot)]
    rfl
  rw [hmissing] at h
  exact absurd h (by decide)

/-- **One output**: its zeros are required, unless it has them. -/
theorem required_of_requireOutput (hgraph : root.graph = g)
    (hsize : r.entries.size = (w.graph g).nodes.size) {u : Unit}
    (h : (RunM.requireOutput w root).Yields r u r') : Required w g root r r' := by
  rcases RunM.yields_requireOutput.1 h with ⟨-, rfl⟩ | ⟨hpadding, zero, current, -, -, hrest⟩
  · exact .refl ..
  · have hroot : root.index < r.entries.size := by
      rw [hsize, ← hgraph]
      exact has_of_hasPadding hpadding
    rcases hrest with ⟨-, rfl⟩ | ⟨-, hrecord⟩
    · exact .refl ..
    · exact required_of_record hgraph hroot rfl hrecord

/-- An output that a node consumes is shared, so its zeros are for its own store. -/
theorem Required.grown_of_consumer (h : Required w g root r r') (hr : Counts w g nodes outputs r)
    (hw : w.WellFormed) (hroot : root ∈ outputs) (hgraph : root.graph = g) (hhas : w.Has root)
    {c : NodeRef} (hc : c ∈ (r.entry root).consumers) :
    Grown w g (some root) (· = root) r r' ∧ 1 < (r.entry root).readers ∧ some root ≠ some c := by
  obtain ⟨hshared, hne⟩ := hr.shared hw hroot hgraph hhas hc
  have hgrown := h.grown
  rw [if_pos hshared] at hgrown
  exact ⟨hgrown, hshared, by simpa using hne⟩

/-- Consumers read what they read before. -/
theorem Required.read_eq (h : Required w g root r r') (hr : Counts w g nodes outputs r)
    (hw : w.WellFormed) (hroot : root ∈ outputs) {y : NodeRef} (hy : y.graph = g)
    (hhas : w.Has y) {c : NodeRef} (hc : c ∈ (r.entry y).consumers) :
    (r'.read y (some c)).map PaddingValue.clone =
      (r.read y (some c)).map PaddingValue.clone := by
  refine read_congr ?_ (h.grown.padding y)
  by_cases hyr : y = root
  · subst hyr
    obtain ⟨hgrown, hshared, hne⟩ := h.grown_of_consumer hr hw hroot hy hhas hc
    exact hgrown.fillFor_eq hne hy fun _ => hshared
  · rw [h.grown.untouched y hy hyr]

/-- No unconditional constant is added to a tensor that a node consumes. -/
theorem Required.constant_old (h : Required w g root r r') (hr : Counts w g nodes outputs r)
    (hw : w.WellFormed) (hroot : root ∈ outputs) {x : NodeRef} (hx : x.graph = g)
    (hhas : w.Has x) {c : NodeRef} (hc : c ∈ (r.entry x).consumers) {i : Nat} {s' : Setting}
    (hs' : (r'.entry x).settings[i]? = some s') (htargets : s'.targets = []) :
    i < (r.entry x).settings.length := by
  by_cases hxr : x = root
  · subst hxr
    obtain ⟨hgrown, hshared, -⟩ := h.grown_of_consumer hr hw hroot hx hhas hc
    rcases (hgrown.settings x).getElem?_cases hs' with ⟨s, hs, -⟩ | ⟨-, fill, rfl⟩
    · exact (List.getElem?_eq_some_iff.1 hs).1
    · rw [Entry.targets_newSetting, if_pos (by simpa using hshared)] at htargets
      exact absurd htargets (by simp)
  · rw [h.grown.untouched x hx hxr] at hs'
    exact (List.getElem?_eq_some_iff.1 hs').1

/-- What consumers demand of their inputs, and where they are noted, is not touched. -/
theorem Required.demands_notes_iff (h : Required w g root r r') (hr : Counts w g nodes outputs r)
    (hw : w.WellFormed) (hroot : root ∈ outputs) {y : NodeRef} (hy : y.graph = g)
    (hhas : w.Has y) {c : NodeRef} (hc : c ∈ (r.entry y).consumers) :
    (∀ e, r'.Demands c y e ↔ r.Demands c y e) ∧ ((r'.entry y).Notes c ↔ (r.entry y).Notes c) := by
  by_cases hyr : y = root
  · subst hyr
    obtain ⟨hgrown, -, hne⟩ := h.grown_of_consumer hr hw hroot hy hhas hc
    exact ⟨hgrown.demands_iff hne y, hgrown.notes_iff hne y⟩
  · have hentry := h.grown.untouched y hy hyr
    exact ⟨fun e => by rw [Demands, Demands, hentry], by rw [hentry]⟩

/-- **Zeros for an output change nothing for the nodes.** -/
theorem Outcome.required {roots : List NodeRef} (hr : Outcome w engine g nodes outputs r)
    (hw : w.WellFormed) (hlists : w.Lists g roots nodes) (hroot : root ∈ outputs)
    (h : Required w g root r r') : Outcome w engine g nodes outputs r' := by
  have hmem : ∀ {x y}, x ∈ nodes → y ∈ (w.node x).inputs →
      (y.graph = g ∧ w.Has y) ∧ x ∈ (r.entry y).consumers := by
    intro x y hx hy
    obtain ⟨hygraph, hyhas⟩ := hlists.has y (hlists.inputs x hx y hy)
    exact ⟨⟨hygraph, hyhas⟩, (hr.mem_consumers hygraph hyhas).2 ⟨hx, hy⟩⟩
  constructor
  case settled =>
    intro x hx
    obtain ⟨hxgraph, hxhas⟩ := hlists.has x hx
    refine (hr.settled x hx).congr (h.grown.consumers x) (h.grown.padding x)
      (h.grown.settings x) ?_ ?_ ?_ ?_ ?_
    · intro y hy
      obtain ⟨⟨hygraph, hyhas⟩, hconsumer⟩ := hmem hx hy
      exact h.read_eq hr.toCounts hw hroot hygraph hyhas hconsumer
    · intro k hk
      exact h.read_eq hr.toCounts hw hroot hxgraph hxhas (List.mem_filter.1 hk).1
    · intro hsome i s' hs' _ htargets
      obtain ⟨k, hk⟩ := List.exists_mem_of_ne_nil _ hsome
      exact h.constant_old hr.toCounts hw hroot hxgraph hxhas (List.mem_filter.1 hk).1 hs' htargets
    · intro y hy
      obtain ⟨⟨hygraph, hyhas⟩, hconsumer⟩ := hmem hx hy
      exact (h.demands_notes_iff hr.toCounts hw hroot hygraph hyhas hconsumer).1
    · intro y hy
      obtain ⟨⟨hygraph, hyhas⟩, hconsumer⟩ := hmem hx hy
      exact (h.demands_notes_iff hr.toCounts hw hroot hygraph hyhas hconsumer).2
  case toCounts => exact h.grown.counts hr.toCounts
  case tidy => exact h.grown.tidy hr.tidy
  case emits => exact fun x hx => h.grown.emits x hx (hr.emits x hx)
  case positions =>
    intro x hx s hs hconst
    rw [h.grown.readers, h.grown.consumers]
    exact hr.positions x hx s (h.positions x s hs hconst) hconst

/-- All outputs, one after the other. -/
theorem Outcome.requireOutput {roots rest : List NodeRef} (hr : Outcome w engine g nodes outputs r)
    (hw : w.WellFormed) (hlists : w.Lists g roots nodes)
    (hrest : ∀ x ∈ rest, x ∈ outputs ∧ x.graph = g) {u : Unit}
    (h : (rest.forM (RunM.requireOutput w)).Yields r u r') :
    Outcome w engine g nodes outputs r' := by
  induction rest generalizing r with
  | nil =>
    obtain rfl := RunM.yields_forM_nil.1 h
    exact hr
  | cons root rest ih =>
    obtain ⟨r₁, hroot, htail⟩ := RunM.yields_forM_cons.1 h
    obtain ⟨hmem, hgraph⟩ := hrest root (by simp)
    have hstep := required_of_requireOutput hgraph hr.size hroot
    exact ih (hr.required hw hlists hmem hstep) (fun x hx => hrest x (by simp [hx])) htail

end Run

/-! ## Analyses -/

section Distinct

variable {α : Type} [DecidableEq α]

theorem mem_foldl_insertLast {a : α} {xs seen : List α} :
    a ∈ xs.foldl insertLast seen ↔ a ∈ seen ∨ a ∈ xs := by
  induction xs generalizing seen with
  | nil => simp
  | cons x xs ih =>
    rw [List.foldl_cons, ih, List.mem_cons, mem_insertLast, or_assoc]

theorem nodup_foldl_insertLast {xs seen : List α} (h : seen.Nodup) :
    (xs.foldl insertLast seen).Nodup := by
  induction xs generalizing seen with
  | nil => exact h
  | cons x xs ih => exact ih (nodup_insertLast h x)

theorem mem_distinct {a : α} {xs : List α} : a ∈ distinct xs ↔ a ∈ xs := by
  rw [show distinct xs = xs.foldl insertLast [] from rfl, mem_foldl_insertLast]
  simp

theorem nodup_distinct (xs : List α) : (distinct xs).Nodup := nodup_foldl_insertLast List.nodup_nil

end Distinct

/-- **The parts of an analysis that succeeds.** -/
theorem Engine.analyze_eq_ok {w : Workspace} {engine : Engine} {roots : List NodeRef}
    {a : Analysis} :
    engine.analyze w roots = .ok a ↔
      ∃ first rest simulated, roots = first :: rest ∧ a.graph = first.graph ∧
      w.reachable roots = .ok a.nodes ∧
        engine.simulateFrom w a.nodes.length 0 a.nodes
          (.initial w a.graph a.nodes (distinct roots)) = .ok simulated ∧
        (RunM.requireOutputs w engine (distinct roots)).Yields simulated () a.run := by
  constructor
  · intro h
    unfold analyze at h
    split at h
    · exact absurd h (by simp [throw, throwThe, MonadExceptOf.throw])
    · rename_i first rest
      split at h
      · exact absurd h (by simp [throw, throwThe, MonadExceptOf.throw])
      · rename_i nodes hreach
        dsimp only at h
        cases hsim : engine.simulateFrom w nodes.length 0 nodes
            (.initial w first.graph nodes (distinct (first :: rest))) with
        | error e => rw [hsim] at h; exact absurd h (by simp [bind, Except.bind])
        | ok simulated =>
          rw [hsim] at h
          simp only [bind, Except.bind] at h
          rcases houtputs :
            (RunM.requireOutputs w engine (distinct (first :: rest))).on simulated with
            ⟨cause | u, final⟩
          · rw [houtputs] at h
            exact absurd h (by simp [throw, throwThe, MonadExceptOf.throw])
          · rw [houtputs] at h
            obtain rfl := Except.ok.inj h
            exact ⟨first, rest, simulated, rfl, rfl, hreach, hsim, houtputs⟩
  · rintro ⟨first, rest, simulated, rfl, hgraph, hreach, hsim, houtputs⟩
    have hon : (RunM.requireOutputs w engine (distinct (first :: rest))).on simulated =
        (.ok (), a.run) :=
      houtputs
    rw [hgraph] at hsim
    simp only [analyze, hreach, hsim, bind, Except.bind, hon]
    rw [← hgraph]
    rfl

/-- **What an analysis that succeeds ends with.** -/
theorem Engine.outcome_of_analyze {w : Workspace} (hw : w.WellFormed) {engine : Engine}
    {roots : List NodeRef} {a : Analysis} (h : engine.analyze w roots = .ok a) :
    w.Lists a.graph roots a.nodes ∧ a.run.Outcome w engine a.graph a.nodes (distinct roots) := by
  obtain ⟨first, rest, simulated, rfl, hgraph, hreach, hsim, houtputs⟩ := analyze_eq_ok.1 h
  have hlists := hgraph ▸ Workspace.lists_of_reachable hw hreach
  have hsplit : a.nodes = [] ++ (a.nodes ++ []) := by simp
  obtain ⟨hcoherent, hsettled⟩ := Run.simulateFrom_spec hw hlists hsplit (Run.coherent_initial ..)
    (by simp) hsim
  have hsimulated := hcoherent.outcome hsettled
  refine ⟨hlists, ?_⟩
  rw [RunM.requireOutputs] at houtputs
  split at houtputs
  · exact hsimulated.requireOutput hw hlists
      (fun x hx => ⟨hx, (hlists.roots x (mem_distinct.1 hx)).1⟩) houtputs
  · obtain ⟨-, hrun⟩ := RunM.yields_pure.1 houtputs
    rwa [hrun]

/-! ## Analyses that can be run -/

/-- A computation whose answer passes a test succeeds. -/
theorem exists_ok_of_test {ε α : Type} {x : Except ε α} {P : α → Prop} [DecidablePred P]
    (h : (match x with | .ok a => decide (P a) | .error _ => false) = true) :
    ∃ a, x = .ok a ∧ P a := by
  cases x with
  | error e => simp at h
  | ok a => exact ⟨a, rfl, of_decide_eq_true h⟩

/-- The nodes are simulated and the outputs required without an error, and the analysis passes a
test. -/
def Engine.passes (engine : Engine) (w : Workspace) (g : Nat) (roots nodes : List NodeRef)
    (P : Analysis → Prop) [DecidablePred P] : Bool :=
  match engine.simulateFrom w nodes.length 0 nodes (.initial w g nodes (distinct roots)) with
  | .error _ => false
  | .ok simulated =>
    match (RunM.requireOutputs w engine (distinct roots)).on simulated with
    | (.error _, _) => false
    | (.ok _, final) => decide (P ⟨g, nodes, final⟩)

/-- The analysis of a graph at hand succeeds.  The nodes are given, since the search for them does
not evaluate. -/
theorem Workspace.Built.exists_analyze {w : Workspace} (hw : w.Built) {engine : Engine}
    {roots : List NodeRef} {P : Analysis → Prop} [DecidablePred P] (g : Nat)
    (nodes : List NodeRef) (hnodes : roots ≠ [] ∧ w.Collects g roots nodes)
    (h : engine.passes w g roots nodes P = true) :
    ∃ a, engine.analyze w roots = .ok a ∧ P a := by
  obtain ⟨hne, hcollects⟩ := hnodes
  obtain ⟨first, rest, rfl⟩ := List.exists_cons_of_ne_nil hne
  have hgraph : g = first.graph := (hcollects.2.1 first (hcollects.2.2.1 first (by simp))).1.symm
  unfold Engine.passes at h
  split at h
  · exact absurd h Bool.false_ne_true
  · rename_i simulated hsim
    split at h
    · exact absurd h Bool.false_ne_true
    · rename_i final hfinal
      exact ⟨⟨g, nodes, final⟩, Engine.analyze_eq_ok.2 ⟨first, rest, simulated, rfl, hgraph,
        hw.reachable_eq g hcollects, hsim, hfinal⟩, of_decide_eq_true h⟩

end LanePadding
