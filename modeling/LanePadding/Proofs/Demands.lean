import LanePadding.Proofs.History
import LanePadding.Proofs.Transfer

/-!
# Demanded constants

Two kinds of readers need a certain scalar in padding lanes.  A reduction needs its neutral element
in the padding lanes that it reduces, and an output leaves with zeros.  Either may find the scalar
there already, share a setting with others, or get one of its own.

## What is here

* `Engine.neutral_of_analyze` — a reduction over padding lanes finds its neutral element in them; a
  reduction over real lanes only asks for nothing.  That it is noted nowhere is kept by every move
  of an analysis (`Run.Move.not_notes`).
* `Engine.zeros_of_analyze` — every output leaves with zeros in its padding lanes, and nobody reads
  anything else because of it.  Every output is dealt with once, so its entry is the one it had
  after the simulation (`Run.entry_of_requireOutput`).
-/

set_option autoImplicit false

namespace LanePadding

open Number

/-! ## What a tensor holds -/

namespace Analysis

/-- The tensor's own padding lanes hold the scalar, and no constant is written into them for all
readers. -/
def HoldsItself (a : Analysis) (x : NodeRef) (v : Scalar) : Prop :=
  (∃ p u, a.padding? x = some p ∧ p.content = .exact u ∧ u.equal v = true) ∧
    ∀ s ∈ a.settings x, s.targets = [] → s.fill.isConstant = false

/-- The setting writes the scalar into the padding lanes of the tensor. -/
def Fills (a : Analysis) (x : NodeRef) (v : Scalar) (s : Setting) : Prop :=
  s ∈ a.settings x ∧ ∃ u, s.fill = .constant u ∧ u.equal v = true

theorem holdsItself_iff {a : Analysis} {x : NodeRef} (hx : x.graph = a.graph) {v : Scalar} :
    a.HoldsItself x v ↔ (∃ p, (a.run.entry x).padding = some p ∧ p.isExact v = true) ∧
      ∀ s ∈ (a.run.entry x).settings, s.targets = [] → s.constant? = none := by
  rw [HoldsItself, padding?, settings, if_pos hx, if_pos hx]
  refine and_congr ?_ ?_
  · constructor
    · rintro ⟨p, u, hp, hcontent, hu⟩
      exact ⟨p, hp, by rw [PaddingValue.isExact, hcontent]; exact hu⟩
    · rintro ⟨p, hp, hexact⟩
      obtain ⟨u, hcontent, hu⟩ := PaddingValue.exists_of_isExact hexact
      exact ⟨p, u, hp, hcontent, hu⟩
  · simp [Setting.isConstant_fill]

theorem fills_iff {a : Analysis} {x : NodeRef} (hx : x.graph = a.graph) {v : Scalar} {s : Setting} :
    a.Fills x v s ↔ s ∈ (a.run.entry x).settings ∧ ∃ u, s.constant? = some u ∧
      u.equal v = true := by
  have hconst : ∀ u, s.fill = .constant u ↔ s.constant? = some u := by
    intro u
    rw [Setting.constant?]
    cases s.fill <;> simp
  simp only [Fills, settings, if_pos hx, hconst]

end Analysis

/-! ## Reductions -/

namespace Run

variable {w : Workspace} {engine : Engine} {g : Nat}
  {roots nodes outputs : List NodeRef} {r r' : Run}

/-- **A reduction over real lanes is noted nowhere else than on itself**, as long as it was not
before. -/
theorem Move.not_notes (hlists : w.Lists g roots nodes) {n : NodeRef} (hn : w.ReducesReal n)
    (hcounts : Counts w g nodes outputs r) {phase : Phase}
    (h : Move w g nodes outputs phase r r') {y : NodeRef} (hy : y.graph = g) (hne : y ≠ n)
    (hr : ¬(r.entry y).Notes n) : ¬(r'.entry y).Notes n := by
  intro hnotes
  cases h with
  | @note m _ _ hm hdemands h =>
    obtain ⟨x, -, -, h⟩ := h
    rcases h.notes hnotes with hold | ⟨-, hmn⟩
    · exact hr hold
    · exact hdemands (Option.some.inj hmn ▸ hn)
  | @store m _ hm content =>
    obtain ⟨hgraph, hhas⟩ := hlists.has m hm
    rw [entry_store (hcounts.index_lt hgraph hhas)] at hnotes
    split at hnotes
    · rcases hnotes with hsettings | ⟨p, hp, hmem⟩
      · exact hr (.inl hsettings)
      · obtain rfl := Option.some.inj hp
        simp at hmem
    · exact hr hnotes
  | @serve m _ _ hm h =>
    obtain ⟨c, hc, h⟩ := h
    rcases h.notes hnotes with hold | ⟨-, hcn⟩
    · exact hr hold
    · -- reductions do not fault
      obtain rfl := Option.some.inj hcn
      obtain ⟨fn, axes, keep, x, hop, -⟩ := hn
      have happly := (List.mem_filter.1 hc).2
      rw [applying?_reduce hop] at happly
      simp at happly
  | @require root _ _ hroot h =>
    obtain ⟨x, rfl, hgraph, h⟩ := h
    rcases h.notes hnotes with hold | ⟨hindex, hc⟩
    · exact hr hold
    · split at hc
      · obtain rfl := Option.some.inj hc
        exact hne (by cases x; cases y; simp_all)
      · simp at hc

end Run

namespace Engine

variable {w : Workspace} {engine : Engine} {roots : List NodeRef} {a : Analysis}

/-- A reduction over real lanes is noted on no other tensor. -/
theorem not_notes_of_analyze (hw : w.WellFormed) (h : engine.analyze w roots = .ok a) {n : NodeRef}
    (hn : w.ReducesReal n) {y : NodeRef} (hy : y.graph = a.graph) (hne : y ≠ n) :
    ¬(a.run.entry y).Notes n := by
  obtain ⟨hlists, -⟩ := outcome_of_analyze hw h
  refine ((passes_of_analyze hw h).invariant hlists (I := fun r => ¬(r.entry y).Notes n) ?_
    (Run.coherent_initial ..).toCounts ?_).2
  · intro phase s s' _ hs hmove hr
    exact hmove.not_notes hlists hn hs hy hne hr
  · simp [Entry.Notes, Run.entry_initial_settings, Run.entry_initial_padding]

/-- **Reductions find their neutral element.**  A reduction `n` of `x` over an axis with padding
lanes reads its neutral element there: `x` holds it itself, or a setting writes it, for all readers
or for `n`.  So the padding lanes of `n` hold the neutral element as well.  A reduction over real
lanes only is noted nowhere on `x`, nor on any other tensor but itself. -/
theorem neutral_of_analyze (hw : w.Built) (h : engine.analyze w roots = .ok a) {n x : NodeRef}
    (hn : n ∈ a.nodes) {fn : ReduceFn} {axes : List Nat} {keep : Bool}
    (hop : (w.node n).op = .reduce fn axes keep) (hx : x ∈ (w.node n).inputs) :
    ((∃ i ∈ axes, i ∈ (w.node x).paddedAxes) →
      ∃ v, engine.platform.Neutral (w.node x).dtype fn v ∧
        (∃ q u, a.run.read x (some n) = some q ∧ q.content = .exact u ∧ u.equal v = true) ∧
        (a.HoldsItself x v ∨ ∃ s, a.Fills x v s ∧ (s.targets = [] ∨ n ∈ s.targets)) ∧
        ∃ p, a.padding? n = some p ∧ p.content = .exact v) ∧
    ((∀ i ∈ axes, i ∉ (w.node x).paddedAxes) →
      ∀ y ≠ n, (∀ s ∈ a.settings y, n ∉ s.demandedBy ∧ n ∉ s.targets) ∧
        ∀ p, a.padding? y = some p → n ∉ p.targets) := by
  obtain ⟨hlists, houtcome⟩ := outcome_of_analyze hw.wellFormed h
  obtain ⟨hngraph, hnhas⟩ := hlists.has n hn
  obtain ⟨x', hoperands, -⟩ := (hw.wellFormed n hnhas).reduces fn axes keep hop
  obtain rfl : x = x' := by simpa [Node.inputs, hoperands, Operand.node?] using hx
  have hgraph := (hlists.has x (hlists.inputs n hn x hx)).1
  have hsettled := houtcome.settled n hn
  refine ⟨?_, ?_⟩
  · rintro ⟨i, haxes, hpadded⟩
    have hsome : ((w.node x).paddedAxes.filter (· ∈ axes)).isEmpty = false := by
      rw [List.isEmpty_eq_false_iff_exists_mem]
      exact ⟨i, List.mem_filter.2 ⟨hpadded, by simpa using haxes⟩⟩
    obtain ⟨v, q, hv, hread, hexact⟩ := hsettled.neutral fn axes keep x hop hoperands hsome
    obtain ⟨u, hcontent, hu⟩ := PaddingValue.exists_of_isExact hexact
    refine ⟨v, Platform.neutral_of_eq_ok hv, ⟨q, u, hread, hcontent, hu⟩, ?_, ?_⟩
    · rcases Entry.exact_cases hread hexact with hown | ⟨s, hs, hfill, hwhy⟩
      · exact .inl ((Analysis.holdsItself_iff hgraph).2 hown)
      · refine .inr ⟨s, (Analysis.fills_iff hgraph).2 ⟨hs, hfill⟩, ?_⟩
        rcases hwhy with ⟨c, hc, hdemanded⟩ | htargets
        · obtain rfl := Option.some.inj hc
          rcases houtcome.tidy x s hs with hnil | hall
          · exact .inl hnil
          · exact .inr (hall ▸ hdemanded)
        · exact .inl htargets
    · obtain ⟨p, hp, -, hinfer⟩ := hsettled.holds
      refine ⟨p, by rw [Analysis.padding?, if_pos hngraph, hp], ?_⟩
      simp only [Run.infer, hop, hoperands, List.getElem?_cons_zero, Option.bind_some,
        Operand.node?, hsome, hv] at hinfer
      exact (Option.some.inj hinfer).symm
  · intro hreal y hne
    have hnone : w.ReducesReal n := by
      refine ⟨fn, axes, keep, x, hop, hoperands, List.isEmpty_iff.2 (List.filter_eq_nil_iff.2 ?_)⟩
      exact fun i hpadded haxes => hreal i (by simpa using haxes) hpadded
    by_cases hy : y.graph = a.graph
    · have hnotes := not_notes_of_analyze hw.wellFormed h hnone hy hne
      rw [Analysis.settings, Analysis.padding?, if_pos hy, if_pos hy]
      refine ⟨fun s hs => ?_, fun p hp hmem => hnotes (.inr ⟨p, hp, hmem⟩)⟩
      have hdemanded : n ∉ s.demandedBy := fun hmem => hnotes (.inl ⟨s, hs, hmem⟩)
      exact ⟨hdemanded, fun hmem => hdemanded ((houtcome.tidy y s hs).mem_demandedBy hmem)⟩
    · simp [Analysis.settings, Analysis.padding?, hy]

/-- The maximum reads the lowest number, which a setting writes for it alone; the sum over real
lanes demanded nothing. -/
theorem neutral_sharedExponential :
    ∃ a v, default.analyze .sharedExponential [⟨0, 2⟩, ⟨0, 3⟩, ⟨0, 4⟩, ⟨0, 1⟩] = .ok a ∧
      (⟨0, 2⟩ : NodeRef) ∈ a.nodes ∧ Platform.default.lowest .float32 = .ok v ∧
      (∃ q u, a.run.read ⟨0, 0⟩ (some ⟨0, 2⟩) = some q ∧ q.content = .exact u ∧ u.equal v = true) ∧
      (⟨0, 4⟩ : NodeRef) ∈ a.nodes ∧ ∀ s ∈ a.settings ⟨0, 0⟩, ⟨0, 4⟩ ∉ s.demandedBy := by
  obtain ⟨a, ha, hnodes, -⟩ := exists_analyze_sharedExponential
  have hmax : (⟨0, 2⟩ : NodeRef) ∈ a.nodes := by simp [hnodes]
  have hsum : (⟨0, 4⟩ : NodeRef) ∈ a.nodes := by simp [hnodes]
  have hmaxOp : (Workspace.sharedExponential.node ⟨0, 2⟩).op = .reduce .max [1] false := by
    decide
  have hsumOp : (Workspace.sharedExponential.node ⟨0, 4⟩).op = .reduce .sum [0] false := by
    decide
  have hbuilt := Workspace.built_sharedExponential
  obtain ⟨v, hv, hread, -⟩ :=
    (neutral_of_analyze (x := ⟨0, 0⟩) hbuilt ha hmax hmaxOp (by decide)).1
    ⟨1, by simp, by decide⟩
  have hnone := (neutral_of_analyze (x := ⟨0, 0⟩) hbuilt ha hsum hsumOp (by decide)).2
    (by decide) ⟨0, 0⟩ (by decide)
  cases hv with
  | max hlowest => exact ⟨a, v, ha, hmax, hlowest, hread, hsum, fun s hs => (hnone.1 s hs).1⟩

end Engine

/-! ## Outputs -/

theorem Scalar.eq_of_zero {d : DType} {v : Scalar} (h : Scalar.zero d = .ok v) :
    v = ⟨d, .zero⟩ := by
  obtain ⟨-, rfl⟩ := Scalar.ofDouble_eq_ok h
  rw [DType.round_zero]

/-- The entry of an output `x` after a scalar was required for its store: it is read there already,
or it is written, for the store alone if the tensor has other readers. -/
inductive Entry.Stored (x : NodeRef) (v : Scalar) (e : Entry) : Entry → Prop
  | kept {current : PaddingValue} (hread : e.read x none = some current)
      (hexact : current.isExact v = true) :
      Stored x v e e
  | filledAll (hreaders : ¬1 < e.readers)
      (hother : ∀ current, e.read x none = some current → current.isExact v = false) :
      Stored x v e (e.write none (.constant v) false)
  | filledOne (hreaders : 1 < e.readers)
      (hother : ∀ current, e.read x none = some current → current.isExact v = false) :
      Stored x v e (e.write (some x) (.constant v) true)

namespace Entry

variable {x : NodeRef} {v : Scalar} {e e' : Entry}

/-- The store finds the scalar. -/
theorem Stored.exact_cases (h : e.Stored x v e') (hfresh : ∀ s ∈ e.settings, x ∉ s.demandedBy) :
    ((∃ p, e'.padding = some p ∧ p.isExact v = true) ∧
        ∀ s ∈ e'.settings, s.targets = [] → s.constant? = none) ∨
      (∃ s ∈ e'.settings, (∃ u, s.constant? = some u ∧ u.equal v = true) ∧ s.targets = []) ∨
      ∃ s ∈ e'.settings, (∃ u, s.constant? = some u ∧ u.equal v = true) ∧ x ∈ s.targets := by
  cases h with
  | kept hread hexact =>
    rcases Entry.exact_cases hread hexact with hown | ⟨s, hs, hfill, hwhy⟩
    · exact .inl hown
    · refine .inr (.inl ⟨s, hs, hfill, hwhy.resolve_left ?_⟩)
      rintro ⟨c, hc, -⟩
      exact absurd hc (by simp)
  | filledAll _ _ => exact .inr (.inl (exists_of_write_all e v))
  | filledOne _ _ => exact .inr (.inr (exists_of_write_one hfresh v))

/-- Only a tensor with other readers is stored with a fill of its own. -/
theorem Stored.one_lt_readers (h : e.Stored x v e')
    (hfresh : ∀ s ∈ e.settings, x ∉ s.demandedBy) {s : Setting} (hs : s ∈ e'.settings)
    (hx : x ∈ s.demandedBy) : 1 < e.readers := by
  cases h with
  | kept _ _ => exact absurd hx (hfresh s hs)
  | filledAll _ _ =>
    rcases (grows_write e none (.constant v) false).settings.mem_cases hs with
      ⟨s₀, hs₀, hjoined⟩ | ⟨fill, rfl⟩
    · exact absurd ((hjoined.mem_demandedBy hx).resolve_right (by simp)) (hfresh s₀ hs₀)
    · exact absurd (mem_demandedBy_newSetting.1 hx) (by simp)
  | filledOne hreaders _ => exact hreaders

/-- Consumers read the same as before. -/
theorem Stored.read_eq (h : e.Stored x v e') {c : NodeRef} (hc : x ≠ c) (hreaders : 1 < e.readers) :
    e'.read x (some c) = e.read x (some c) := by
  cases h with
  | kept _ _ => rfl
  | filledAll hfew _ => exact absurd hreaders hfew
  | filledOne _ _ =>
    have hgrows := grows_write e (some x) (.constant v) true
    rw [Entry.read_eq, Entry.read_eq, hgrows.settings.fillFor_eq (by simpa using hc), padding_write]

end Entry

namespace Run

variable {w : Workspace} {engine : Engine} {g : Nat}
  {roots nodes outputs : List NodeRef} {r r' : Run}

/-- What is done for an output that has not demanded anything: it reads zeros already, or they are
written. -/
theorem write_of_requireOutput {root : NodeRef}
    (hfresh : ∀ s ∈ (r.entry root).settings, root ∉ s.demandedBy)
    (hpadded : (w.node root).hasPadding = true) {u : Unit}
    (h : (RunM.requireOutput w root).Yields r u r') :
    ∃ current, r.read root none = some current ∧
      (current.isExact ⟨(w.node root).dtype, .zero⟩ = true ∧ r' = r ∨
        current.isExact ⟨(w.node root).dtype, .zero⟩ = false ∧
          r' = r.write (if 1 < (r.entry root).readers then some root else none) root
            (.constant ⟨(w.node root).dtype, .zero⟩) (decide (1 < (r.entry root).readers))) := by
  rcases RunM.yields_requireOutput.1 h with ⟨hnone, -⟩ | ⟨-, zero, current, hzero, hcurrent, hrest⟩
  · simp [hpadded] at hnone
  · obtain rfl := Scalar.eq_of_zero hzero
    refine ⟨current, hcurrent, hrest.imp_right fun hwritten => ⟨hwritten.1, ?_⟩⟩
    obtain ⟨-, current', hcurrent', hr'⟩ := RunM.yields_record_constant.1 hwritten.2
    -- the output reads as everybody does
    have hsame : current' = current := by
      refine Option.some.inj (hcurrent'.symm.trans (Eq.trans ?_ hcurrent))
      split
      · exact Entry.read_of_fresh hfresh root
      · rfl
    rwa [hsame, hwritten.1, if_neg Bool.false_ne_true] at hr'

/-- An output that has not demanded anything is stored. -/
theorem stored_of_requireOutput {root : NodeRef} (hsize : root.index < r.entries.size)
    (hfresh : ∀ s ∈ (r.entry root).settings, root ∉ s.demandedBy)
    (hpadded : (w.node root).hasPadding = true) {u : Unit}
    (h : (RunM.requireOutput w root).Yields r u r') :
    (r.entry root).Stored root ⟨(w.node root).dtype, .zero⟩ (r'.entry root) := by
  obtain ⟨current, hcurrent, ⟨hexact, rfl⟩ | ⟨hother, hr'⟩⟩ :=
    write_of_requireOutput hfresh hpadded h
  · exact .kept hcurrent hexact
  · rw [hr', entry_write hsize, if_pos rfl]
    have hnot : ∀ p, (r.entry root).read root none = some p →
        p.isExact ⟨(w.node root).dtype, .zero⟩ = false :=
      fun p hp => Option.some.inj (hcurrent.symm.trans hp) ▸ hother
    by_cases hreaders : 1 < (r.entry root).readers
    · simpa only [hreaders, if_true, decide_true] using .filledOne hreaders hnot
    · simpa only [hreaders, if_false, decide_false] using .filledAll hreaders hnot

/-- Outputs do not disturb each other. -/
theorem exists_requireOutput {rest : List NodeRef} (hnodup : rest.Nodup)
    (hrest : ∀ y ∈ rest, y.graph = g) (hsize : r.entries.size = (w.graph g).nodes.size)
    {x : NodeRef} (hx : x.graph = g) {u : Unit}
    (h : (rest.forM (RunM.requireOutput w)).Yields r u r') :
    (x ∉ rest → r'.entry x = r.entry x) ∧
      (x ∈ rest → ∃ s s', (RunM.requireOutput w x).Yields s () s' ∧
        s.entries.size = r.entries.size ∧ s.entry x = r.entry x ∧ r'.entry x = s'.entry x) := by
  induction rest generalizing r with
  | nil =>
    obtain rfl := RunM.yields_forM_nil.1 h
    simp
  | cons root rest ih =>
    obtain ⟨r₁, hroot, htail⟩ := RunM.yields_forM_cons.1 h
    obtain ⟨hnot, hnodup⟩ := List.nodup_cons.1 hnodup
    have hgrown := (required_of_requireOutput (hrest root (by simp)) hsize hroot).grown
    have hrest' := ih hnodup (fun y hy => hrest y (by simp [hy])) (hgrown.size.trans hsize) htail
    by_cases hxr : x = root
    · subst hxr
      exact ⟨fun hmem => absurd List.mem_cons_self hmem,
        fun _ => ⟨r, r₁, hroot, rfl, rfl, hrest'.1 hnot⟩⟩
    · have hentry := hgrown.untouched x hx hxr
      refine ⟨fun hmem => ?_, fun hmem => ?_⟩
      · rw [hrest'.1 fun hx => hmem (List.mem_cons_of_mem _ hx), hentry]
      · obtain ⟨s, s', hyields, hssize, hs, hs'⟩ :=
          hrest'.2 ((List.mem_cons.1 hmem).resolve_left hxr)
        exact ⟨s, s', hyields, hssize.trans hgrown.size, hs.trans hentry, hs'⟩

end Run

namespace Engine

variable {w : Workspace} {engine : Engine} {roots : List NodeRef} {a : Analysis}

/-- **Outputs leave with zeros.**  An output with padding lanes holds zeros in them itself, or zeros
are written into them, for all readers or for its store.  Only an output that other nodes read has a
fill for its store, and all of its consumers read just what they read before the outputs were dealt
with. -/
theorem zeros_of_analyze (hw : w.Built) (houtput : engine.outputPadding = true)
    (h : engine.analyze w roots = .ok a) {x : NodeRef} (hx : x ∈ roots)
    (hpadded : (w.node x).hasPadding = true) :
    (a.HoldsItself x ⟨(w.node x).dtype, .zero⟩ ∨
      (∃ s, a.Fills x ⟨(w.node x).dtype, .zero⟩ s ∧ s.targets = []) ∨
      ∃ s, a.Fills x ⟨(w.node x).dtype, .zero⟩ s ∧ x ∈ s.targets) ∧
    ((∃ s ∈ a.settings x, x ∈ s.targets) → ∃ c ∈ a.nodes, c ≠ x ∧ x ∈ (w.node c).inputs) ∧
    ∃ simulated,
      engine.simulateFrom w a.nodes.length 0 a.nodes (.initial w a.graph a.nodes (distinct roots)) =
        .ok simulated ∧
      ∀ c ∈ a.nodes, x ∈ (w.node c).inputs → a.run.read x (some c) = simulated.read x (some c) := by
  have hwf := hw.wellFormed
  obtain ⟨-, houtcome⟩ := outcome_of_analyze hwf h
  obtain ⟨first, tail, simulated, rfl, hgraph, hreach, hsim, houtputs⟩ := analyze_eq_ok.1 h
  have hlists := hgraph ▸ Workspace.lists_of_reachable hwf hreach
  have hsplit : a.nodes = [] ++ (a.nodes ++ []) := by simp
  obtain ⟨hcoherent, -⟩ := Run.simulateFrom_spec hwf hlists hsplit (Run.coherent_initial ..)
    (by simp) hsim
  have hmem : x ∈ distinct (first :: tail) := mem_distinct.2 hx
  have hxgraph := (hlists.roots x hx).1
  have hhas := Run.has_of_hasPadding hpadded
  -- the simulation left no demand of the output itself
  have hfresh : ∀ s ∈ (simulated.entry x).settings, x ∉ s.demandedBy := by
    intro s hs hdemanded
    have hconsumer := (hcoherent.demanders x hxgraph s hs x hdemanded).1
    exact (hcoherent.shared hwf hmem hxgraph hhas hconsumer).2 rfl
  have hstored : (simulated.entry x).Stored x ⟨(w.node x).dtype, .zero⟩ (a.run.entry x) := by
    rw [RunM.requireOutputs, houtput, if_pos rfl] at houtputs
    obtain ⟨s, s', hyields, hsize, hs, hs'⟩ := (Run.exists_requireOutput (nodup_distinct _)
      (fun y hy => (hlists.roots y (mem_distinct.1 hy)).1) hcoherent.size hxgraph houtputs).2 hmem
    rw [hs', ← hs]
    refine Run.stored_of_requireOutput ?_ (hs ▸ hfresh) hpadded hyields
    rw [hsize]
    exact hcoherent.index_lt hxgraph hhas
  refine ⟨?_, ?_, simulated, hsim, ?_⟩
  · simp only [Analysis.holdsItself_iff hxgraph, Analysis.fills_iff hxgraph, and_assoc]
    exact hstored.exact_cases hfresh
  · rintro ⟨s, hs, htarget⟩
    rw [Analysis.settings, if_pos hxgraph] at hs
    have hreaders := hstored.one_lt_readers hfresh hs
      ((houtcome.tidy x s hs).mem_demandedBy htarget)
    rw [hcoherent.readers x hxgraph hhas, if_pos hmem] at hreaders
    obtain ⟨c, hc⟩ := List.exists_mem_of_length_pos (l := (simulated.entry x).consumers) (by omega)
    obtain ⟨hcmem, hinput⟩ := (hcoherent.mem_consumers hxgraph hhas).1 hc
    exact ⟨c, hcmem, (hcoherent.shared hwf hmem hxgraph hhas hc).2.symm, hinput⟩
  · intro c hc hinput
    have hconsumer := (hcoherent.mem_consumers hxgraph hhas).2 ⟨hc, hinput⟩
    obtain ⟨hreaders, hne⟩ := hcoherent.shared hwf hmem hxgraph hhas hconsumer
    exact hstored.read_eq hne hreaders

/-- The exponential holds ones, which the product needs, so zeros are written for its store
alone. -/
theorem zeros_sharedExponential :
    ∃ a simulated, default.analyze .sharedExponential [⟨0, 2⟩, ⟨0, 3⟩, ⟨0, 4⟩, ⟨0, 1⟩] = .ok a ∧
      (∃ s, a.Fills ⟨0, 1⟩ ⟨.float32, .zero⟩ s ∧ (⟨0, 1⟩ : NodeRef) ∈ s.targets) ∧
      default.simulateFrom .sharedExponential a.nodes.length 0 a.nodes
        (.initial .sharedExponential a.graph a.nodes (distinct [⟨0, 2⟩, ⟨0, 3⟩, ⟨0, 4⟩, ⟨0, 1⟩])) =
          .ok simulated ∧
      a.run.read ⟨0, 1⟩ (some ⟨0, 3⟩) = simulated.read ⟨0, 1⟩ (some ⟨0, 3⟩) := by
  obtain ⟨a, ha, hnodes, hpadding, htargeted⟩ := exists_analyze_sharedExponential
  obtain ⟨hzero, -, simulated, hsim, hreads⟩ :=
    zeros_of_analyze (x := ⟨0, 1⟩) Workspace.built_sharedExponential rfl
    ha (by simp) (by decide)
  have hdtype : (Workspace.sharedExponential.node ⟨0, 1⟩).dtype = .float32 := by decide
  rw [hdtype] at hzero
  refine ⟨a, simulated, ha, ?_, hsim, hreads ⟨0, 3⟩ (by simp [hnodes]) (by decide)⟩
  rcases hzero with ⟨⟨p, u, hp, hcontent, hu⟩, -⟩ | ⟨s, hs, hnil⟩ | hstore
  · rw [hp, Option.map_some, hcontent, Option.some.injEq, Content.exact.injEq] at hpadding
    rw [hpadding] at hu
    exact absurd hu (by decide +kernel)
  · exact absurd hnil (htargeted s hs.1)
  · exact hstore

end Engine

end LanePadding
