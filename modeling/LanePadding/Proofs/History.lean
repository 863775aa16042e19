import LanePadding.Proofs.Outcome

/-!
# What happens to a state

An analysis changes its state in small moves.  A node that is simulated is noted on what it relies
on, then its own content is stored, then its consumers are served, and in the end the outputs are
stored.  `Run.Move` lists these moves, each with the phase in which it happens, and every analysis
is a sequence of them (`Engine.passes_of_analyze`).

The main result is `Engine.keeps_of_analyze`: once a node is simulated, whatever it read and
whatever it holds stays the same, not only in the end but after every single move.  A later consumer
can come across the same tensor, but then the tensor is shared and what the consumer writes is for
itself; and nothing is written for all readers of a tensor after one of them was simulated
(`Run.Move.keeps`).
-/

set_option autoImplicit false

namespace LanePadding

/-! ## Moves -/

/-- What an analysis is busy with. -/
inductive Phase where
  /-- Inferring what the padding lanes of a node hold. -/
  | simulating (n : NodeRef)
  /-- Making a node safe for its consumers. -/
  | securing (n : NodeRef)
  /-- Requiring zeros of an output. -/
  | storing (root : NodeRef)

/-- The phase comes after the simulation of the node `c`. -/
def Phase.After (c : NodeRef) : Phase → Prop
  | simulating n => c.index < n.index
  | securing n => c.index ≤ n.index
  | storing _ => True

namespace Run

section

variable (w : Workspace) (g : Nat) (nodes outputs : List NodeRef)

/-- A single change of the state of an analysis. -/
inductive Move : Phase → Run → Run → Prop
  | note {n : NodeRef} {r r' : Run} (hn : n ∈ nodes) (hdemands : ¬w.ReducesReal n)
      (h : Note w g (some n) (· ∈ (w.node n).inputs) r r') : Move (.simulating n) r r'
  | store {n : NodeRef} {r : Run} (hn : n ∈ nodes) (content : Content) :
      Move (.simulating n) r (r.store n content)
  | serve {n : NodeRef} {r r' : Run} (hn : n ∈ nodes) (h : Serve w n r r') : Move (.securing n) r r'
  | require {root : NodeRef} {r r' : Run} (hroot : root ∈ outputs)
      (h : Note w g (if 1 < (r.entry root).readers then some root else none) (· = root) r r') :
      Move (.storing root) r r'

/-- Moves lead from one state to the other, all of them in phases from `P`. -/
def Passes (P : Phase → Prop) : Run → Run → Prop :=
  Relation.ReflTransGen fun r r' => ∃ phase, P phase ∧ Move w g nodes outputs phase r r'

end

variable {w : Workspace} {engine : Engine} {g : Nat} {roots nodes outputs : List NodeRef}
  {P : Phase → Prop} {r r' : Run}

/-- Moves leave the readers of all nodes alone. -/
theorem Move.counts {phase : Phase} (h : Move w g nodes outputs phase r r')
    (hlists : w.Lists g roots nodes) (hr : Counts w g nodes outputs r) :
    Counts w g nodes outputs r' := by
  have hupdate : ∀ {c x t r'}, Update w c x t r r' → Counts w g nodes outputs r' := by
    intro c x t r' h
    refine hr.congr h.size (fun y _ => ?_) fun y _ => ?_
    · exact h.forall_entry (P := fun e e' => e'.consumers = e.consumers) h.grows.consumers
        (fun _ => rfl) y
    · exact h.forall_entry (P := fun e e' => e'.readers = e.readers) h.grows.readers
        (fun _ => rfl) y
  cases h with
  | note hn _ h =>
    obtain ⟨x, -, -, h⟩ := h
    exact hupdate h
  | store hn content =>
    rename_i n
    obtain ⟨hgraph, hhas⟩ := hlists.has n hn
    have hsize := hr.index_lt hgraph hhas
    refine hr.congr (size_store ..) (fun y _ => ?_) fun y _ => ?_
    all_goals
      rw [entry_store hsize]
      split <;> rfl
  | serve hn h =>
    obtain ⟨c, -, h⟩ := h
    exact hupdate h
  | require hroot h =>
    obtain ⟨x, -, -, h⟩ := h
    exact hupdate h

/-- What every move keeps holds after all of them. -/
theorem Passes.invariant (hlists : w.Lists g roots nodes) {I : Run → Prop}
    (hmove : ∀ {phase s s'}, P phase → Counts w g nodes outputs s →
      Move w g nodes outputs phase s s' → I s → I s')
    (hr : Counts w g nodes outputs r) (hI : I r) (h : Passes w g nodes outputs P r r') :
    Counts w g nodes outputs r' ∧ I r' := by
  induction h with
  | refl => exact ⟨hr, hI⟩
  | tail _ h ih =>
    obtain ⟨phase, hP, h⟩ := h
    obtain ⟨hcounts, hI⟩ := ih
    exact ⟨h.counts hlists hcounts, hmove hP hcounts h hI⟩

/-! ## Analyses as sequences of moves -/

/-- Simulating a node is a sequence of moves. -/
theorem Stepped.passes_store {n : NodeRef} {r₁ : Run} {content : Content}
    (h : Stepped w engine g n r r₁ content r') (hn : n ∈ nodes) (hP : P (.simulating n)) :
    Passes w g nodes outputs P r (r₁.store n content) := by
  refine .tail ?_ ⟨_, hP, .store hn content⟩
  by_cases hreal : w.ReducesReal n
  · exact h.silent hreal ▸ .refl
  · exact Relation.ReflTransGen.mono
      (fun _ _ hnote => ⟨_, hP, .note hn hreal hnote⟩) _ _ h.grown.notes

/-- Making a node safe is a sequence of moves. -/
theorem Stepped.passes_serve {n : NodeRef} {r₁ : Run} {content : Content}
    (h : Stepped w engine g n r r₁ content r') (hn : n ∈ nodes) (hP : P (.securing n)) :
    Passes w g nodes outputs P (r₁.store n content) r' :=
  Relation.ReflTransGen.mono (fun _ _ hserve => ⟨_, hP, .serve hn hserve⟩) _ _ h.serves

theorem Required.passes {root : NodeRef} (h : Required w g root r r') (hroot : root ∈ outputs)
    (hP : P (.storing root)) : Passes w g nodes outputs P r r' := by
  -- the number of readers does not change on the way
  have hlift : ∀ {s}, Relation.ReflTransGen
      (Note w g (if 1 < (r.entry root).readers then some root else none) (· = root)) r s →
      Passes w g nodes outputs P r s := by
    intro s hs
    induction hs with
    | refl => exact .refl
    | tail hpath hnote ih =>
      refine ih.tail ⟨_, hP, .require hroot ?_⟩
      rwa [(grown_of_notes hpath).readers root]
  exact hlift h.grown.notes

theorem passes_of_simulateFrom (hw : w.WellFormed) (hlists : w.Lists g roots nodes)
    {done l rest : List NodeRef} {count i : Nat} (hsplit : nodes = done ++ (l ++ rest))
    (hr : Coherent w g nodes outputs done r) (hP : ∀ n ∈ l, P (.simulating n) ∧ P (.securing n))
    (h : engine.simulateFrom w count i l r = .ok r') : Passes w g nodes outputs P r r' := by
  refine (simulateFrom_induction hw hlists
    (I := fun _ s => Passes w g nodes outputs P r s) ?_ hsplit hr .refl h).2
  intro done n s s₁ content s' hn hnext _ hstepped hpasses
  obtain ⟨hsimulating, hsecuring⟩ := hP n hn
  exact (hpasses.trans (hstepped.passes_store hnext.mem hsimulating)).trans
    (hstepped.passes_serve hnext.mem hsecuring)

theorem passes_of_requireOutput {rest : List NodeRef}
    (hsize : r.entries.size = (w.graph g).nodes.size)
    (hrest : ∀ x ∈ rest, x ∈ outputs ∧ x.graph = g) (hP : ∀ root, P (.storing root)) {u : Unit}
    (h : (rest.forM (RunM.requireOutput w)).Yields r u r') : Passes w g nodes outputs P r r' := by
  induction rest generalizing r with
  | nil =>
    obtain rfl := RunM.yields_forM_nil.1 h
    exact .refl
  | cons root rest ih =>
    obtain ⟨r₁, hroot, htail⟩ := RunM.yields_forM_cons.1 h
    obtain ⟨hmem, hgraph⟩ := hrest root (by simp)
    have hrequired := required_of_requireOutput hgraph hsize hroot
    exact (hrequired.passes hmem (hP root)).trans
      (ih (hrequired.grown.size.trans hsize) (fun x hx => hrest x (by simp [hx])) htail)

theorem passes_of_requireOutputs (hlists : w.Lists g roots nodes)
    (hsize : r.entries.size = (w.graph g).nodes.size) (hP : ∀ root, P (.storing root))
    {rest : List NodeRef} (hrest : ∀ x ∈ rest, x ∈ distinct roots) {u : Unit}
    (h : (RunM.requireOutputs w engine rest).Yields r u r') :
    Passes w g nodes (distinct roots) P r r' := by
  rw [RunM.requireOutputs] at h
  split at h
  · exact passes_of_requireOutput hsize
      (fun x hx => ⟨hrest x hx, (hlists.roots x (mem_distinct.1 (hrest x hx))).1⟩) hP h
  · obtain ⟨-, rfl⟩ := RunM.yields_pure.1 h
    exact .refl

/-- Outputs are stored one after the other. -/
theorem requireOutputs_append {l l' : List NodeRef} {u : Unit} :
    (RunM.requireOutputs w engine (l ++ l')).Yields r u r' ↔
      ∃ s, (RunM.requireOutputs w engine l).Yields r () s ∧
      (RunM.requireOutputs w engine l').Yields s u r' := by
  rw [RunM.requireOutputs, RunM.requireOutputs, RunM.requireOutputs]
  split
  · exact RunM.yields_forM_append
  · simp

/-! ## Values that were read stay -/

/-- The node `c` reads the same from its inputs in both states, and its own padding value is the
same, except that more consumers may rely on it. -/
structure Keeps (w : Workspace) (c : NodeRef) (r r' : Run) : Prop where
  reads : ∀ x ∈ (w.node c).inputs, ∃ p p', r.read x (some c) = some p ∧
    r'.read x (some c) = some p' ∧ p'.content = p.content ∧ p'.origin = p.origin
  own : ∃ p p', (r.entry c).padding = some p ∧ (r'.entry c).padding = some p' ∧
    p'.content = p.content ∧ p'.origin = p.origin ∧ p.targets <+: p'.targets

theorem Keeps.trans {c : NodeRef} {r'' : Run} (h : Keeps w c r r') (h' : Keeps w c r' r'') :
    Keeps w c r r'' where
  reads x hx := by
    obtain ⟨p, q, hp, hq, hcontent, horigin⟩ := h.reads x hx
    obtain ⟨q', p'', hq', hp'', hcontent', horigin'⟩ := h'.reads x hx
    obtain rfl : q = q' := Option.some.inj (hq.symm.trans hq')
    exact ⟨p, p'', hp, hp'', hcontent'.trans hcontent, horigin'.trans horigin⟩
  own := by
    obtain ⟨p, q, hp, hq, hcontent, horigin, htargets⟩ := h.own
    obtain ⟨q', p'', hq', hp'', hcontent', horigin', htargets'⟩ := h'.own
    obtain rfl : q = q' := Option.some.inj (hq.symm.trans hq')
    exact ⟨p, p'', hp, hp'', hcontent'.trans hcontent, horigin'.trans horigin,
      htargets.trans htargets'⟩

theorem Keeps.right {c : NodeRef} (h : Keeps w c r r') : Keeps w c r' r' where
  reads x hx := by
    obtain ⟨-, p, -, hp, -⟩ := h.reads x hx
    exact ⟨p, p, hp, hp, rfl, rfl⟩
  own := by
    obtain ⟨-, p, -, hp, -⟩ := h.own
    exact ⟨p, p, hp, hp, rfl, rfl, List.prefix_refl _⟩

end Run

/-- A consumer that is noted comes last. -/
theorem Entry.Grows.exists_padding {c : Option NodeRef} {t : Bool} {e e' : Entry}
    (h : e.Grows c t e') {p : PaddingValue} (hp : e.padding = some p) :
    ∃ p', e'.padding = some p' ∧ p'.content = p.content ∧ p'.origin = p.origin ∧
      p.targets <+: p'.targets := by
  rcases h.padding with hsame | hnoted
  · exact ⟨p, hsame.trans hp, rfl, rfl, List.prefix_refl _⟩
  · rw [hp] at hnoted
    refine ⟨p.addTarget c, hnoted, ?_⟩
    cases c with
    | none => exact ⟨rfl, rfl, List.prefix_refl _⟩
    | some c =>
      refine ⟨rfl, rfl, ?_⟩
      change p.targets <+: insertLast p.targets c
      rw [insertLast]
      split
      · exact List.prefix_refl _
      · exact List.prefix_append _ _

namespace Run

variable {w : Workspace} {engine : Engine} {g : Nat} {roots nodes outputs : List NodeRef}
  {P : Phase → Prop} {r r' : Run}

/-- A change of one tensor keeps the values of a node that is provided with the same constants. -/
theorem Update.keeps {k : Option NodeRef} {x c : NodeRef} {t : Bool} (h : Update w k x t r r')
    (hr : Keeps w c r r)
    (hfill : ∀ y ∈ (w.node c).inputs,
      fillFor (r'.entry y).settings (some c) = fillFor (r.entry y).settings (some c)) :
      Keeps w c r r' where
  reads y hy := by
    obtain ⟨p, -, hp, -⟩ := hr.reads y hy
    have hpadding := h.forall_entry
      (P := fun e e' => e'.padding.map PaddingValue.clone = e.padding.map PaddingValue.clone)
      h.grows.map_clone (fun _ => rfl) y
    obtain ⟨p', hp', hsame⟩ := exists_of_map_clone (read_congr (hfill y hy) hpadding) hp
    exact ⟨p, p', hp, hp', hsame⟩
  own := by
    obtain ⟨p, -, hp, -⟩ := hr.own
    have hgrows := h.forall_entry
      (P := fun e e' => e.padding = some p → ∃ p', e'.padding = some p' ∧ p'.content = p.content ∧
        p'.origin = p.origin ∧ p.targets <+: p'.targets)
      (fun hp => h.grows.exists_padding hp) (fun e hp => ⟨p, hp, rfl, rfl, List.prefix_refl _⟩) c hp
    obtain ⟨p', hp', hsame⟩ := hgrows
    exact ⟨p, p', hp, hp', hsame⟩

/-- **A move after the simulation of a node keeps its values.** -/
theorem Move.keeps (hw : w.WellFormed) (hlists : w.Lists g roots nodes) {c : NodeRef}
    (hc : c ∈ nodes) (hr : Counts w g nodes outputs r) (hkept : Keeps w c r r) {phase : Phase}
    (hafter : phase.After c) (h : Move w g nodes outputs phase r r') : Keeps w c r r' := by
  obtain ⟨hcgraph, hchas⟩ := hlists.has c hc
  -- the node is a consumer of each of its inputs, all of which come before it
  have hinputs : ∀ y ∈ (w.node c).inputs,
      y.graph = g ∧ w.Has y ∧ y.index < c.index ∧ c ∈ (r.entry y).consumers := by
    intro y hy
    obtain ⟨hgraph, hhas⟩ := hlists.has y (hlists.inputs c hc y hy)
    exact ⟨hgraph, hhas, ((hw c hchas).earlier y hy).2, (hr.mem_consumers hgraph hhas).2 ⟨hc, hy⟩⟩
  cases h with
  | @note n _ _ hn _ h =>
    have hne : n ≠ c := fun hnc => Nat.lt_irrefl _ (hnc ▸ hafter : n.index < n.index)
    obtain ⟨x, hx, hgraph, h⟩ := h
    refine h.keeps hkept fun y hy => ?_
    obtain ⟨hygraph, hyhas, -, hconsumer⟩ := hinputs y hy
    have hgrown : Grown w g (some n) (· ∈ (w.node n).inputs) r r' := h.grown hx hgraph
    refine hgrown.fillFor_eq (by simpa using hne) hygraph fun hinput => ?_
    exact hr.one_lt_readers hygraph hyhas hconsumer
      ((hr.mem_consumers hygraph hyhas).2 ⟨hn, hinput⟩) hne.symm
  | @store n _ hn content =>
    obtain ⟨hgraph, hhas⟩ := hlists.has n hn
    have hsize := hr.index_lt hgraph hhas
    have hentry : ∀ y : NodeRef, y.index ≤ c.index → (r.store n content).entry y = r.entry y := by
      intro y hy
      rw [entry_store hsize, if_neg]
      have hlt : c.index < n.index := hafter
      omega
    constructor
    case reads =>
      intro y hy
      rw [read, read, hentry y (Nat.le_of_lt (hinputs y hy).2.2.1)]
      exact hkept.reads y hy
    case own =>
      rw [hentry c (Nat.le_refl _)]
      exact hkept.own
  | @serve n _ _ hn h =>
    obtain ⟨k, -, h⟩ := h
    refine h.keeps hkept fun y hy => ?_
    have hle : c.index ≤ n.index := hafter
    have hlt := (hinputs y hy).2.2.1
    rw [h.entry_of_ne (by omega)]
  | @require root _ _ hroot h =>
    obtain ⟨x, rfl, hgraph, h⟩ := h
    refine h.keeps hkept fun y hy => ?_
    obtain ⟨hygraph, hyhas, -, hconsumer⟩ := hinputs y hy
    by_cases hyx : y = x
    · subst hyx
      obtain ⟨hreaders, hne⟩ := hr.shared hw hroot hgraph hyhas hconsumer
      rw [if_pos hreaders] at h
      have hgrown : Grown w g (some y) (· = y) r r' := h.grown rfl hgraph
      exact hgrown.fillFor_eq (by simpa using hne) hygraph fun _ => hreaders
    · rw [h.entry_of_ne (index_ne hgraph hygraph (Ne.symm hyx))]

/-- **All moves after the simulation of a node keep its values**, up to any state that they lead
to. -/
theorem Passes.keeps (hw : w.WellFormed) (hlists : w.Lists g roots nodes) {c : NodeRef}
    (hc : c ∈ nodes) (hr : Counts w g nodes outputs r) (hkept : Keeps w c r r)
    (h : Passes w g nodes outputs (Phase.After c) r r') :
    Counts w g nodes outputs r' ∧ Keeps w c r r' :=
  h.invariant hlists (fun hafter hs hmove hkeeps =>
    hkeeps.trans (hmove.keeps hw hlists hc hs hkeeps.right hafter)) hr hkept

/-- A node that was just simulated reads from all its inputs. -/
theorem Stepped.keeps {done : List NodeRef} {c : NodeRef} {r₁ : Run} {content : Content}
    (h : Stepped w engine g c r r₁ content r') (hn : Next w g nodes done c)
    (hr : Coherent w g nodes outputs done r) (hsettled : ∀ x ∈ done, Settled w engine r x) :
    Keeps w c (r₁.store c content) (r₁.store c content) := by
  have hsize : c.index < r₁.entries.size := h.grown.size ▸ hn.index_lt hr
  constructor
  case reads =>
    intro x hx
    obtain ⟨p, hp, -⟩ := (hsettled x (hn.inputs x hx)).holds
    obtain ⟨p', hp', -⟩ := exists_of_map_clone (h.grown.padding x) hp
    have hne : c ≠ x := fun hcx => hn.not_mem_inputs (hcx ▸ hx)
    rw [read, entry_store hsize, if_neg (index_ne hn.graph (hn.doneHas x (hn.inputs x hx)).1 hne),
      Entry.read_eq, hp']
    cases fillFor (r₁.entry x).settings (some c) with
    | some v => exact ⟨_, _, rfl, rfl, rfl, rfl⟩
    | none => exact ⟨_, _, rfl, rfl, rfl, rfl⟩
  case own =>
    rw [entry_store hsize, if_pos rfl]
    exact ⟨_, _, rfl, rfl, rfl, rfl, List.prefix_refl _⟩

end Run

namespace Engine

variable {w : Workspace} {engine : Engine} {roots : List NodeRef} {a : Analysis}

theorem simulateFrom_append {count i : Nat} {l l' : List NodeRef} {r r'' : Run} :
    engine.simulateFrom w count i (l ++ l') r = .ok r'' ↔
      ∃ r', engine.simulateFrom w count i l r = .ok r' ∧
        engine.simulateFrom w count (i + l.length) l' r' = .ok r'' := by
  induction l generalizing i r with
  | nil => simp [simulateFrom]
  | cons n l ih =>
    rw [List.cons_append, simulateFrom, simulateFrom]
    split
    · simp
    · rw [ih, List.length_cons, Nat.add_right_comm, Nat.add_assoc]

/-- **An analysis is a sequence of moves.** -/
theorem passes_of_analyze (hw : w.WellFormed) (h : engine.analyze w roots = .ok a) :
    Run.Passes w a.graph a.nodes (distinct roots) (fun _ => True)
      (.initial w a.graph a.nodes (distinct roots)) a.run := by
  obtain ⟨first, tail, simulated, rfl, hgraph, hreach, hsim, houtputs⟩ := analyze_eq_ok.1 h
  have hlists := hgraph ▸ Workspace.lists_of_reachable hw hreach
  have hsplit : a.nodes = [] ++ (a.nodes ++ []) := by simp
  have hinitial := Run.coherent_initial w a.graph a.nodes (distinct (first :: tail))
  obtain ⟨hcoherent, -⟩ := Run.simulateFrom_spec hw hlists hsplit hinitial (by simp) hsim
  exact (Run.passes_of_simulateFrom hw hlists hsplit hinitial
    (fun _ _ => ⟨trivial, trivial⟩) hsim).trans
    (Run.passes_of_requireOutputs hlists hcoherent.size (fun _ => trivial) (fun _ => id) houtputs)

/-- The nodes listed behind a node are simulated after it. -/
theorem after_of_mem {g : Nat} {nodes done rest : List NodeRef} {c n : NodeRef}
    (hlists : w.Lists g roots nodes) (hsplit : nodes = done ++ c :: rest) (hn : n ∈ rest) :
    Phase.After c (.simulating n) ∧ Phase.After c (.securing n) := by
  have hsorted := hlists.sorted
  rw [hsplit, List.pairwise_append, List.pairwise_cons] at hsorted
  have hlt := hsorted.2.1.1 n hn
  exact ⟨hlt, Nat.le_of_lt hlt⟩

/-- Moves lead to the state after some of the nodes, and from there to the state after all of
them. -/
theorem exists_between_nodes {g : Nat} {nodes outputs done later todo : List NodeRef}
    {P : Phase → Prop} {count i : Nat} {r r' : Run} (hw : w.WellFormed)
    (hlists : w.Lists g roots nodes) (hsplit : nodes = done ++ (later ++ todo))
    (hr : Run.Coherent w g nodes outputs done r)
    (hP : ∀ n ∈ later ++ todo, P (.simulating n) ∧ P (.securing n))
    (h : engine.simulateFrom w count i (later ++ todo) r = .ok r') :
    ∃ s, engine.simulateFrom w count i later r = .ok s ∧ Run.Passes w g nodes outputs P r s ∧
      Run.Passes w g nodes outputs P s r' := by
  obtain ⟨s, hs, htodo⟩ := simulateFrom_append.1 h
  obtain ⟨hcoherent, -⟩ := Run.simulateFrom_induction hw hlists (I := fun _ _ => True)
    (fun _ _ _ _ _ => trivial) hsplit hr trivial hs
  have hsplit' : nodes = (done ++ later) ++ (todo ++ []) := by simp [hsplit]
  exact ⟨s, hs,
    Run.passes_of_simulateFrom hw hlists hsplit hr
      (fun n hn => hP n (List.mem_append_left _ hn)) hs,
    Run.passes_of_simulateFrom hw hlists hsplit' hcoherent
      (fun n hn => hP n (List.mem_append_right _ hn)) htodo⟩

/-- Moves lead to the state after some of the outputs, and from there to the state after all of
them. -/
theorem exists_between_outputs {g : Nat} {nodes stored pending : List NodeRef}
    {P : Phase → Prop} {r r' : Run} (hlists : w.Lists g roots nodes)
    (hr : Run.Counts w g nodes (distinct roots) r) (hP : ∀ root, P (.storing root))
    (hroots : distinct roots = stored ++ pending) {u : Unit}
    (h : (RunM.requireOutputs w engine (distinct roots)).Yields r u r') :
    ∃ s, (RunM.requireOutputs w engine stored).Yields r () s ∧
      Run.Passes w g nodes (distinct roots) P r s ∧
      Run.Passes w g nodes (distinct roots) P s r' := by
  rw [hroots] at h
  obtain ⟨s, hs, hpending⟩ := Run.requireOutputs_append.1 h
  have hpast : Run.Passes w g nodes (distinct roots) P r s :=
    Run.passes_of_requireOutputs hlists hr.size hP
      (fun x hx => hroots ▸ List.mem_append_left _ hx) hs
  obtain ⟨hcounts, -⟩ :=
    hpast.invariant hlists (I := fun _ => True) (fun _ _ _ _ => trivial) hr trivial
  exact ⟨s, hs, hpast, Run.passes_of_requireOutputs hlists hcounts.size hP
    (fun x hx => hroots ▸ List.mem_append_right _ hx) hpending⟩

/-- The state comes up between the simulation of the node `c`, which ends in the state `after`, and
the end of the analysis. -/
def Between (w : Workspace) (roots : List NodeRef) (a : Analysis) (c : NodeRef)
    (after s : Run) : Prop :=
  Run.Passes w a.graph a.nodes (distinct roots) (Phase.After c) after s ∧
    Run.Passes w a.graph a.nodes (distinct roots) (Phase.After c) s a.run

/-- **What was read never changes.**  From the end of the simulation of a node `c` on, whatever the
moves of the analysis lead to, `c` reads the same contents of the same origins from its inputs, and
its own padding value stays, except that consumers are added to those that rely on it.  The moves
lead to the states of the analysis itself: those after each later node, and those after each
output. -/
theorem keeps_of_analyze (hw : w.Built) (h : engine.analyze w roots = .ok a) {c : NodeRef}
    (hc : c ∈ a.nodes) :
    ∃ done rest before after, a.nodes = done ++ c :: rest ∧
      engine.simulateFrom w a.nodes.length 0 done (.initial w a.graph a.nodes (distinct roots)) =
        .ok before ∧
      (RunM.visit w engine c).Yields before () after ∧
      Run.Passes w a.graph a.nodes (distinct roots) (Phase.After c) after a.run ∧
      (∀ later todo, rest = later ++ todo → ∃ s,
        engine.simulateFrom w a.nodes.length 0 (done ++ c :: later)
          (.initial w a.graph a.nodes (distinct roots)) = .ok s ∧ Between w roots a c after s) ∧
      (∀ stored pending, distinct roots = stored ++ pending → ∃ simulated s,
        engine.simulateFrom w a.nodes.length 0 a.nodes
          (.initial w a.graph a.nodes (distinct roots)) = .ok simulated ∧
        (RunM.requireOutputs w engine stored).Yields simulated () s ∧
        Between w roots a c after s) ∧
      ∀ s s', Run.Passes w a.graph a.nodes (distinct roots) (Phase.After c) after s →
        Run.Passes w a.graph a.nodes (distinct roots) (Phase.After c) s s' →
        Run.Keeps w c s s' := by
  obtain ⟨first, tail, simulated, rfl, hgraph, hreach, hsim, houtputs⟩ := analyze_eq_ok.1 h
  have hwf := hw.wellFormed
  have hlists := hgraph ▸ Workspace.lists_of_reachable hwf hreach
  obtain ⟨done, rest, hsplit⟩ := List.append_of_mem hc
  -- the states before and after the simulation of the node
  have hsim' := hsim
  rw [hsplit] at hsim'
  obtain ⟨before, hbefore, hrest⟩ := simulateFrom_append.1 hsim'
  rw [← hsplit] at hbefore hrest
  obtain ⟨hcoherent, hsettled⟩ := Run.simulateFrom_spec hwf hlists
    (show a.nodes = [] ++ (done ++ c :: rest) from hsplit) (Run.coherent_initial ..)
    (by simp) hbefore
  rw [List.nil_append] at hcoherent hsettled
  have hnext := Run.next_of_lists hwf hlists hsplit
  rw [simulateFrom] at hrest
  split at hrest
  · exact absurd hrest (by simp)
  · rename_i u secured hyields
    obtain ⟨noted, content, hstepped⟩ := Run.exists_stepped hnext hcoherent (u := u) hyields
    have hsecured := hcoherent.step hnext hstepped
    have hserve : Run.Passes w a.graph a.nodes (distinct (first :: tail)) (Phase.After c)
        (noted.store c content) secured := hstepped.passes_serve hnext.mem (Nat.le_refl _)
    -- what follows are the moves of later nodes and of the outputs
    have hlater : ∀ n ∈ rest, Phase.After c (.simulating n) ∧ Phase.After c (.securing n) :=
      fun n hn => after_of_mem hlists hsplit hn
    have hall : a.nodes = (done ++ [c]) ++ (rest ++ []) := by simp [hsplit]
    have hnodes := hserve.trans (Run.passes_of_simulateFrom hwf hlists hall hsecured hlater hrest)
    have hcounts := (Run.simulateFrom_spec hwf hlists (show a.nodes = [] ++ (a.nodes ++ []) by simp)
      (Run.coherent_initial ..) (by simp) hsim).1.toCounts
    have hstores := Run.passes_of_requireOutputs hlists hcounts.size (P := Phase.After c)
      (fun _ => trivial) (fun _ => id) houtputs
    refine ⟨done, rest, before, noted.store c content, hsplit, hbefore, hstepped.visits,
      hnodes.trans hstores, ?_, ?_, ?_⟩
    · rintro later todo rfl
      obtain ⟨s, hs, hpast, hahead⟩ :=
        exists_between_nodes hwf hlists (by simp [hsplit]) hsecured hlater hrest
      refine ⟨s, simulateFrom_append.2 ⟨before, hbefore, ?_⟩, hserve.trans hpast,
        hahead.trans hstores⟩
      simp only [simulateFrom, hyields, hs]
    · intro stored pending hroots
      obtain ⟨s, hs, hpast, hahead⟩ := exists_between_outputs (P := Phase.After c) hlists hcounts
        (fun _ => trivial) hroots houtputs
      exact ⟨simulated, s, hsim, hs, hnodes.trans hpast, hahead⟩
    · intro s s' hs hs'
      have hcounts := (Run.Move.store hc content).counts hlists
        (hstepped.grown.counts hcoherent.toCounts)
      obtain ⟨hscounts, hskeeps⟩ :=
        hs.keeps hwf hlists hc hcounts (hstepped.keeps hnext hcoherent hsettled)
      exact (hs'.keeps hwf hlists hc hscounts hskeeps.right).2

end Engine

/-- An exponential that is an output and is multiplied up; its operand is also reduced to maxima,
over padding lanes, and to sums, over real lanes. -/
def Workspace.sharedExponential : Workspace :=
  (Workspace.empty.addGraph "shared").calls
    [.placeholder 0 "x" .float32 [⟨2, 2⟩, ⟨16, 15⟩], .unary (.unary .exp) ⟨0, 0⟩,
      .reduce (.reduce .max) ⟨0, 0⟩ false [1], .reduce (.reduce .prod) ⟨0, 1⟩ false [1],
      .reduce (.reduce .sum) ⟨0, 0⟩ false [0]]

theorem Workspace.built_sharedExponential : sharedExponential.Built :=
  (Built.addGraph "shared" .empty).calls (by decide)

theorem Engine.exists_analyze_sharedExponential :
    ∃ a, default.analyze .sharedExponential [⟨0, 2⟩, ⟨0, 3⟩, ⟨0, 4⟩, ⟨0, 1⟩] = .ok a ∧
      a.nodes = [⟨0, 0⟩, ⟨0, 1⟩, ⟨0, 2⟩, ⟨0, 3⟩, ⟨0, 4⟩] ∧
      (a.padding? ⟨0, 1⟩).map PaddingValue.content = some (.exact ⟨.float32, .one⟩) ∧
      ∀ s ∈ a.settings ⟨0, 1⟩, s.targets ≠ [] :=
  Workspace.built_sharedExponential.exists_analyze 0 [⟨0, 0⟩, ⟨0, 1⟩, ⟨0, 2⟩, ⟨0, 3⟩, ⟨0, 4⟩]
    (by decide) (by decide +kernel)

/-- The product goes on reading ones from the exponential although zeros are stored there in the
end. -/
theorem Engine.keeps_sharedExponential :
    ∃ a before after, default.analyze .sharedExponential [⟨0, 2⟩, ⟨0, 3⟩, ⟨0, 4⟩, ⟨0, 1⟩] = .ok a ∧
      (⟨0, 3⟩ : NodeRef) ∈ a.nodes ∧
      (RunM.visit .sharedExponential default ⟨0, 3⟩).Yields before () after ∧
      Run.Keeps .sharedExponential ⟨0, 3⟩ after a.run := by
  obtain ⟨a, ha, hnodes, -⟩ := exists_analyze_sharedExponential
  have hc : (⟨0, 3⟩ : NodeRef) ∈ a.nodes := by simp [hnodes]
  obtain ⟨_, _, before, after, -, -, hvisit, hpasses, -, -, hkeeps⟩ :=
    keeps_of_analyze Workspace.built_sharedExponential ha hc
  exact ⟨a, before, after, ha, hc, hvisit, hkeeps after a.run .refl hpasses⟩

end LanePadding
