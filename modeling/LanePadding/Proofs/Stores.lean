import Mathlib.Data.List.GetD
import LanePadding.Proofs.Demands
import LanePadding.Proofs.Offers

/-!
# The settings that an analysis ends with

Storing the outputs adds the last settings.  The store of an output is one more reader, which needs
zeros, so it is treated just as a reduction is: it finds them in what the tensor offers, or it
demands them (`Engine.Requires`).  Only an output that nobody else reads is different, because its
zeros are for all readers although nobody demanded them.  `Run.Closed` tells the two apart, and
`Engine.Simulates.closed` shows that there is nothing else.

## What is here

* `Engine.Requires` — who needs which scalar in the padding lanes of a tensor.
* `Run.Closed` — the settings of a tensor in the end.
* `Engine.Simulates` — an analysis that succeeds, with the state before the outputs are stored.
-/

set_option autoImplicit false

namespace LanePadding

theorem Node.hasPadding_of_isPadded {x : Node} {i : Nat}
    (h : (x.axes.getD i .unit).isPadded = true) : x.hasPadding = true := by
  rw [hasPadding, List.any_eq_true]
  by_cases hi : i < x.axes.length
  · exact ⟨x.axes[i], List.getElem_mem hi, by rwa [List.getD_eq_getElem _ _ hi] at h⟩
  · rw [List.getD_eq_default _ _ (Nat.not_lt.1 hi)] at h
    exact absurd h (by decide)

/-! ## Outputs -/

/-- The reader `c` needs the scalar in the padding lanes of `x`: a reduction its neutral element,
and the store of an output zeros. -/
def Engine.Requires (engine : Engine) (w : Workspace) (outputs : List NodeRef) (x c : NodeRef)
    (v : Scalar) : Prop :=
  engine.Needs w x c v ∨
    c = x ∧ x ∈ outputs ∧ engine.outputPadding = true ∧ (w.node x).hasPadding = true ∧
    v = ⟨(w.node x).dtype, .zero⟩

theorem Engine.Needs.hasPadding {engine : Engine} {w : Workspace} {x c : NodeRef} {v : Scalar}
    (h : engine.Needs w x c v) : (w.node x).hasPadding = true := by
  obtain ⟨fn, axes, keep, -, -, hpadded, -⟩ := h
  obtain ⟨i, hi⟩ := List.isEmpty_eq_false_iff_exists_mem.1 hpadded
  exact Node.hasPadding_of_isPadded (List.mem_filter.1 (List.mem_filter.1 hi).1).2

theorem Engine.Requires.hasPadding {engine : Engine} {w : Workspace} {outputs : List NodeRef}
    {x c : NodeRef} {v : Scalar} (h : engine.Requires w outputs x c v) :
    (w.node x).hasPadding = true := by
  rcases h with hneeds | ⟨-, -, -, hpadded, -⟩
  · exact hneeds.hasPadding
  · exact hpadded

namespace Run

variable {w : Workspace} {engine : Engine} {g : Nat} {roots nodes outputs done : List NodeRef}
  {needs : NodeRef → Scalar → Prop} {x n : NodeRef} {k : Nat} {q : PaddingValue} {r r' : Run}

/-- The settings of a tensor in the end: they are what its readers require, or the tensor has no
consumers and is filled with zeros to be stored. -/
inductive Closed (w : Workspace) (engine : Engine) (nodes outputs : List NodeRef)
    (r : Run) (x : NodeRef) (k : Nat) (q : PaddingValue) : Prop
  | shared (hshape : r.Shape w x (engine.Requires w outputs x) k q)
      (hserved : ∀ c ∈ nodes, ∀ v, engine.Requires w outputs x c v → q.isExact v = true ∨
        ∃ s ∈ (r.entry x).settings, s.constant? ≠ none ∧ c ∈ s.demandedBy)
  | lone (hk : k = 0) (hoffers : r.Offers w x 0 q) (hroot : x ∈ outputs)
      (houtput : engine.outputPadding = true)
      (hpadded : (w.node x).hasPadding = true)
      (hother : q.isExact ⟨(w.node x).dtype, .zero⟩ = false)
      (hconsumers : (r.entry x).consumers = [])
      (hsettings : (r.entry x).settings =
        [Entry.newSetting none (.constant ⟨(w.node x).dtype, .zero⟩) false])

/-- A tensor that demands nothing of itself may as well be thought of as an output. -/
theorem Shape.requires (h : r.Shape w x (engine.Needs w x) k q)
    (hself : ∀ s ∈ (r.entry x).settings, x ∉ s.demandedBy) :
    r.Shape w x (engine.Requires w outputs x) k q where
  offers := h.offers
  relied i s hi hs c hc u hu := by
    rcases hu with hneeds | ⟨rfl, -⟩
    · exact h.relied i s hi hs c hc u hneeds
    · exact absurd hc (hself s (List.mem_of_getElem? hs))
  targeted := h.targeted
  constants i s hi hs v hv := by
    obtain ⟨hother, hsome, hdemanders⟩ := h.constants i s hi hs v hv
    refine ⟨hother, hsome, fun c hc => ?_⟩
    obtain ⟨u, hu, huv⟩ := hdemanders c hc
    exact ⟨u, .inl hu, huv⟩
  copies := h.copies

/-- A simulated reduction finds what it needs: it is offered, or the reduction demanded it. -/
theorem Settled.served (h : Settled w engine r n) (hr : Coherent w g nodes outputs done r)
    (hx : x.graph = g) (hhas : w.Has x) (hn : n ∈ nodes)
    (hshape : r.Shape w x (engine.Needs w x) k q) {v : Scalar} (hneeds : engine.Needs w x n v) :
    q.isExact v = true ∨ ∃ s ∈ (r.entry x).settings, s.constant? ≠ none ∧ n ∈ s.demandedBy := by
  by_cases hdemands : ∃ s ∈ (r.entry x).settings, s.constant? ≠ none ∧ n ∈ s.demandedBy
  · exact .inr hdemands
  · left
    obtain ⟨fn, axes, keep, hop, hoperands, hpadded, hv⟩ := hneeds
    obtain ⟨v', p, hv', hread, hexact⟩ := h.neutral fn axes keep x hop hoperands hpadded
    obtain rfl := Except.ok.inj (hv.symm.trans hv')
    have hc : n ∈ (r.entry x).consumers :=
      (hr.mem_consumers hx hhas).2 ⟨hn, by simp [Node.inputs, hoperands, Operand.node?]⟩
    have hoffered := hshape.read_eq_of_consumer hr hx hhas hc fun i s _ hs hconst hmem =>
      hdemands ⟨s, List.mem_of_getElem? hs, hconst, hmem⟩
    rw [hread, Option.map_some, Option.some.injEq] at hoffered
    rw [← hoffered]
    exact hexact

/-- The store of an output reads what is offered, as everybody does. -/
theorem Shape.read_none (h : r.Shape w x (engine.Needs w x) k q)
    (hr : Coherent w g nodes outputs done r) (hw : w.WellFormed) (hx : x.graph = g) (hhas : w.Has x)
    (hroot : x ∈ outputs) :
    (r.read x none).map PaddingValue.clone = some q := by
  refine h.read_eq fun i s hi hs hconst => ⟨by simp [Setting.IsDemandedBy], ?_⟩
  obtain ⟨v, hv⟩ := Option.ne_none_iff_exists'.1 hconst
  obtain ⟨c, hc⟩ := List.exists_mem_of_ne_nil _ (h.constants i s hi hs v hv).2.1
  have hconsumer := (hr.demanders x hx s (List.mem_of_getElem? hs) c hc).1
  rw [h.targeted i s hi hs, decide_eq_true_iff]
  exact (hr.shared hw hroot hx hhas hconsumer).1

/-- A consumer that is served goes on to be so. -/
theorem served_of_grows {c : Option NodeRef} {t : Bool}
    (h : (r.entry x).Grows c t (r'.entry x)) {n : NodeRef}
    (hserved : ∃ s ∈ (r.entry x).settings, s.constant? ≠ none ∧ n ∈ s.demandedBy) :
    ∃ s ∈ (r'.entry x).settings, s.constant? ≠ none ∧ n ∈ s.demandedBy := by
  obtain ⟨s, hs, hconst, hn⟩ := hserved
  obtain ⟨s', hs', hjoined⟩ := h.settings.exists_joined hs
  exact ⟨s', hs', hjoined.constant?_eq ▸ hconst, hjoined.mem_demandedBy_of_mem hn⟩

/-- Without consumers, nothing is demanded. -/
theorem Shape.settings_eq_nil (h : r.Shape w x (engine.Needs w x) k q)
    (hr : Coherent w g nodes outputs done r) (hx : x.graph = g)
    (hnone : (r.entry x).consumers = []) : k = 0 ∧ (r.entry x).settings = [] := by
  have hk : k = 0 := by
    cases h.offers with
    | own => rfl
    | filled _ _ _ hsensitive => exact absurd (by rw [sensitive, hnone]; rfl) hsensitive
  refine ⟨hk, List.eq_nil_iff_forall_not_mem.2 fun s hs => ?_⟩
  have hsome : s.demandedBy ≠ [] := by
    cases hv : s.constant? with
    | none => exact (hr.positions x hx s hs hv).1
    | some v =>
      obtain ⟨i, hi⟩ := List.mem_iff_getElem?.1 hs
      exact (h.constants i s (hk ▸ Nat.zero_le i) hi v hv).2.1
  obtain ⟨c, hc⟩ := List.exists_mem_of_ne_nil _ hsome
  have hconsumer := (hr.demanders x hx s hs c hc).1
  simp [hnone] at hconsumer

/-- **A tensor that is not stored with zeros** is as it was. -/
theorem Shape.closed_of_entry_eq (h : r.Shape w x (engine.Needs w x) k q)
    (hr : Coherent w g nodes outputs nodes r) (hsettled : ∀ c ∈ nodes, Settled w engine r c)
    (hx : x.graph = g) (hhas : w.Has x) (hself : ∀ s ∈ (r.entry x).settings, x ∉ s.demandedBy)
    (hzero : ∀ v, engine.Requires w outputs x x v → engine.Needs w x x v ∨ q.isExact v = true)
    (hentry : r'.entry x = r.entry x) : Closed w engine nodes outputs r' x k q := by
  refine .shared (h.requires hself |>.congr hentry) fun c hc v hv => ?_
  rw [hentry]
  rcases hv with hneeds | ⟨rfl, hroot⟩
  · exact (hsettled c hc).served hr hx hhas hc h hneeds
  · rcases hzero v (.inr ⟨rfl, hroot⟩) with hneeds | hexact
    · exact (hsettled c hc).served hr hx hhas hc h hneeds
    · exact .inl hexact

/-- **An output is stored** with zeros. -/
theorem Shape.closed_of_stored (h : r.Shape w x (engine.Needs w x) k q)
    (hr : Coherent w g nodes outputs nodes r) (hsettled : ∀ c ∈ nodes, Settled w engine r c)
    (hw : w.WellFormed) (hx : x.graph = g) (hhas : w.Has x)
    (hself : ∀ s ∈ (r.entry x).settings, x ∉ s.demandedBy) (hroot : x ∈ outputs)
    (houtput : engine.outputPadding = true) (hpadded : (w.node x).hasPadding = true)
    (hstored : (r.entry x).Stored x ⟨(w.node x).dtype, .zero⟩ (r'.entry x)) :
    Closed w engine nodes outputs r' x k q := by
  have hread := h.read_none hr hw hx hhas hroot
  have hother : (∀ p, (r.entry x).read x none = some p →
      p.isExact ⟨(w.node x).dtype, .zero⟩ = false) →
      q.isExact ⟨(w.node x).dtype, .zero⟩ = false := by
    intro hnot
    obtain ⟨p, hp, rfl⟩ := Option.map_eq_some_iff.1 hread
    exact hnot p hp
  generalize hentry : r'.entry x = e' at hstored
  cases hstored with
  | @kept current hcurrent hexact =>
    refine h.closed_of_entry_eq hr hsettled hx hhas hself (fun v hv => ?_) hentry
    rcases hv with hneeds | ⟨-, -, -, -, rfl⟩
    · exact .inl hneeds
    · rw [show r.read x none = some current from hcurrent, Option.map_some,
        Option.some.injEq] at hread
      exact .inr (hread ▸ hexact)
  | filledAll hreaders hnot =>
    have hnone : (r.entry x).consumers = [] := by
      rw [hr.readers x hx hhas, if_pos hroot] at hreaders
      exact List.length_eq_zero_iff.1 (by omega)
    obtain ⟨rfl, hsettings⟩ := h.settings_eq_nil hr hx hnone
    have hgrows : (r.entry x).Grows none false (r'.entry x) := hentry ▸ Entry.grows_write ..
    refine .lone rfl (h.offers.grow hgrows) hroot houtput hpadded (hother hnot)
      (hgrows.consumers.trans hnone) ?_
    rw [hentry, Entry.write, Entry.settingOf?, hsettings]
    rfl
  | filledOne hreaders hnot =>
    have hrequires : engine.Requires w outputs x x ⟨(w.node x).dtype, .zero⟩ :=
      .inr ⟨rfl, hroot, houtput, hpadded, rfl⟩
    have hentry' : r'.entry x = (r.entry x).write (some x) (.constant ⟨(w.node x).dtype, .zero⟩)
        (decide (1 < (r.entry x).readers)) := by rw [hentry, decide_eq_true hreaders]
    have hgrows : (r.entry x).Grows (some x) true (r'.entry x) := hentry ▸ Entry.grows_write ..
    refine .shared ((h.requires hself).write hself hrequires (hother hnot) hentry')
      fun c hc v hv => ?_
    rcases hv with hneeds | ⟨rfl, -⟩
    · exact ((hsettled c hc).served hr hx hhas hc h hneeds).imp_right (served_of_grows hgrows)
    · obtain ⟨s, hs, ⟨u, hu, -⟩, hmem⟩ :=
        Entry.exists_of_write_one hself (⟨(w.node c).dtype, .zero⟩ : Scalar)
      refine .inr ⟨s, hentry ▸ hs, by simp [hu], ?_⟩
      rcases hgrows.settings.mem_cases (hentry ▸ hs) with ⟨s₀, hs₀, hjoined⟩ | ⟨fill, rfl⟩
      · exact ((hr.tidy c s₀ hs₀).of_joined hjoined).mem_demandedBy hmem
      · exact Entry.mem_demandedBy_newSetting.2 rfl

end Run

/-! ## Analyses -/

/-- The state of an analysis after all nodes are simulated, and before the outputs are stored. -/
structure Engine.Simulates (engine : Engine) (w : Workspace) (roots : List NodeRef)
    (a : Analysis) (r : Run) :
    Prop where
  lists : w.Lists a.graph roots a.nodes
  simulates : engine.simulateFrom w a.nodes.length 0 a.nodes
    (.initial w a.graph a.nodes (distinct roots)) = .ok r
  coherent : Run.Coherent w a.graph a.nodes (distinct roots) a.nodes r
  settled : ∀ x ∈ a.nodes, Run.Settled w engine r x
  shaped : ∀ x ∈ a.nodes, ∃ k q, r.Shape w x (engine.Needs w x) k q
  stores : (RunM.requireOutputs w engine (distinct roots)).Yields r () a.run

namespace Engine

variable {w : Workspace} {engine : Engine} {roots : List NodeRef} {a : Analysis} {r : Run}

theorem exists_simulates (hw : w.WellFormed) (h : engine.analyze w roots = .ok a) :
    ∃ r, engine.Simulates w roots a r := by
  obtain ⟨first, rest, r, rfl, hgraph, hreach, hsim, houtputs⟩ := analyze_eq_ok.1 h
  have hlists := hgraph ▸ Workspace.lists_of_reachable hw hreach
  have hsplit : a.nodes = [] ++ (a.nodes ++ []) := by simp
  have hinitial := Run.coherent_initial w a.graph a.nodes (distinct (first :: rest))
  obtain ⟨hcoherent, hsettled⟩ := Run.simulateFrom_spec hw hlists hsplit hinitial (by simp) hsim
  exact ⟨r, hlists, hsim, hcoherent, hsettled,
    Run.exists_shape_of_simulateFrom hw hlists hsplit hinitial (by simp) hsim, houtputs⟩

/-- A tensor demands nothing of itself before the outputs are stored. -/
theorem Simulates.not_mem_self (h : engine.Simulates w roots a r) (hw : w.WellFormed) {x : NodeRef}
    (hx : x ∈ a.nodes) :
    ∀ s ∈ (r.entry x).settings, x ∉ s.demandedBy := by
  intro s hs hself
  obtain ⟨hgraph, hhas⟩ := h.lists.has x hx
  have hconsumer := (h.coherent.demanders x hgraph s hs x hself).1
  have hinput := ((h.coherent.mem_consumers hgraph hhas).1 hconsumer).2
  exact hw.not_mem_inputs hhas hinput

/-- **The settings of a tensor in the end**: it offers what it offered, and its readers have what
they require. -/
theorem Simulates.closed (h : engine.Simulates w roots a r) (hw : w.WellFormed) {x : NodeRef}
    (hx : x ∈ a.nodes) {k : Nat} {q : PaddingValue} (hshape : r.Shape w x (engine.Needs w x) k q) :
    Run.Closed w engine a.nodes (distinct roots) a.run x k q := by
  obtain ⟨hgraph, hhas⟩ := h.lists.has x hx
  have hself := h.not_mem_self hw hx
  have hkept : (¬∃ v, engine.Requires w (distinct roots) x x v) → a.run.entry x = r.entry x →
      Run.Closed w engine a.nodes (distinct roots) a.run x k q := fun hnone hentry =>
    hshape.closed_of_entry_eq h.coherent h.settled hgraph hhas hself
      (fun v hv => absurd ⟨v, hv⟩ hnone) hentry
  have hneeds : ∀ v, ¬engine.Needs w x x v := fun v hv => hw.not_mem_inputs hhas hv.mem_inputs
  have hstores := h.stores
  rw [RunM.requireOutputs] at hstores
  split at hstores
  · rename_i houtput
    have houtputs := Run.exists_requireOutput (nodup_distinct _)
      (fun y hy => (h.lists.roots y (mem_distinct.1 hy)).1) h.coherent.size hgraph hstores
    by_cases hroot : x ∈ distinct roots
    · obtain ⟨s, s', hyields, hsize, hs, hs'⟩ := houtputs.2 hroot
      by_cases hpadded : (w.node x).hasPadding = true
      · refine hshape.closed_of_stored h.coherent h.settled hw hgraph hhas hself hroot
          houtput hpadded ?_
        rw [hs', ← hs]
        refine Run.stored_of_requireOutput ?_ (hs ▸ hself) hpadded hyields
        rw [hsize]
        exact h.coherent.index_lt hgraph hhas
      · refine hkept ?_ ?_
        · rintro ⟨v, hv⟩
          exact hpadded hv.hasPadding
        · rcases RunM.yields_requireOutput.1 hyields with ⟨-, rfl⟩ | ⟨hpadding, -⟩
          · rw [hs', hs]
          · exact absurd hpadding hpadded
    · refine hkept ?_ (houtputs.1 hroot)
      rintro ⟨v, hv | ⟨-, hmem, -⟩⟩
      · exact hneeds v hv
      · exact hroot hmem
  · rename_i houtput
    obtain ⟨-, hrun⟩ := RunM.yields_pure.1 hstores
    refine hkept ?_ (by rw [hrun])
    rintro ⟨v, hv | ⟨-, -, hout, -⟩⟩
    · exact hneeds v hv
    · exact houtput hout

end Engine
end LanePadding
