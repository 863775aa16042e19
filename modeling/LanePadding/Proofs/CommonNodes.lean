import LanePadding.Proofs.Lockstep

/-!
# Analyses with nodes in common

Two analyses that have nodes in common, in the same workspace or not, do the same to these nodes as
long as they agree on who reads them.  How many readers a tensor has is asked only for whether there
is another one.  So it is enough that the analyses agree on that, and only for tensors of which
somebody may demand something.

The relation between the states of the analyses is `Pairing.Follows`.  Consumers may be called
otherwise in the second analysis, and both analyses may have further nodes, which are left alone
while common ones are simulated.

## What is here

* `Pairing` — nodes that two workspaces have in common, and `Pairing.Follows`, states that agree on
  them.
* `Pairing.lockstep_view`, ..., `Pairing.lockstep_step` — the steps of an analysis, one by one.
* `Pairing.lockstep_requireOutput` — an output is stored.
* `Pairing.follows_initial`, `Pairing.Follows.actions_eq` — the start and the end.
-/

set_option autoImplicit false

namespace LanePadding

/-! ## What a consumer looks at -/

/-- What a consumer finds in a tensor once its lanes are fixed. -/
def RunM.look (w : Workspace) (consumer x : NodeRef) : RunM (Option PaddingValue) := do
  let own := (← get).read x (some consumer)
  let into := (w.node consumer).axesIntoPadding (w.node x)
  if into.isEmpty then return own
  else if (w.node consumer).paddingReadsPadding (w.node x) then return some (← need own).meetData
  else return some (.ofContent (.dependent (some ⟨x, (into.filterMap id).map Int.ofNat⟩)))

/-- Looking at a tensor demands that its lanes are fixed, where they have to be. -/
theorem RunM.view_node (w : Workspace) (c x : NodeRef) :
    view w c (.node x) = if w.laneFix c x = [] then look w c x
      else demand w (some c) x (.position (w.laneFixExpr c x)) >>= fun _ => look w c x := by
  change (if (!(w.laneFix c x).isEmpty) = true then
    demand w (some c) x (.position (w.laneFixExpr c x)) >>= fun _ => look w c x else look w c x) = _
  cases w.laneFix c x <;> rfl

/-- How a consumer reads the lanes of an operand depends on its axes only. -/
theorem Node.alignedAxes_congr {c c' : Node} (h : c'.axes = c.axes) (x : Node) :
    c'.alignedAxes x = c.alignedAxes x := by
  cases c
  cases c'
  obtain rfl := h
  rfl

/-! ## States that agree on common nodes -/

namespace Run

/-- Of all nodes but the listed ones, the state knows what was known in the state `base`. -/
structure Spares (r : Run) (nodes : List NodeRef) (base : Run) : Prop where
  size : r.entries.size = base.entries.size
  entry : ∀ y, (∀ x ∈ nodes, x.index ≠ y.index) → r.entry y = base.entry y
  emissions : r.emissions.filter (·.tensor ∉ nodes) = base.emissions.filter (·.tensor ∉ nodes)

theorem rules_eq (w : Workspace) (r : Run) (x : NodeRef) :
    r.rules w x = (r.sensitive w x).filterMap (FaultRule.applying? w x) := by
  rw [rules, sensitive, List.filterMap_filter]
  refine List.filterMap_congr fun c _ => ?_
  cases FaultRule.applying? w x c <;> rfl

/-- The actions on some tensors. -/
theorem filter_actions (r : Run) (nodes : List NodeRef) :
    r.actions.filter (·.tensor ∈ nodes) =
      (r.emissions.filter (·.tensor ∈ nodes)).filterMap r.action? := by
  rw [actions_eq, List.filter_filterMap, List.filterMap_filter]
  refine List.filterMap_congr fun m _ => ?_
  rw [action?]
  cases (r.entry m.tensor).settings[m.setting]? with
  | none => simp
  | some s => by_cases hm : m.tensor ∈ nodes <;> simp [hm]

theorem Spares.refl (r : Run) (nodes : List NodeRef) :
    r.Spares nodes r := ⟨rfl, fun _ _ => rfl, rfl⟩

/-- A listed node is changed. -/
theorem Spares.update {r s base : Run} {nodes : List NodeRef} {x : NodeRef}
    (h : r.Spares nodes base) (hx : x ∈ nodes) {f : Entry → Entry}
    (hs : ∀ y, s.entry y = if x.index = y.index then f (r.entry y) else r.entry y)
    (hsize : s.entries.size = r.entries.size) {new : List Emission} (hnew : ∀ m ∈ new, m.tensor = x)
    (hemissions : s.emissions = r.emissions ++ new) : s.Spares nodes base where
  size := hsize.trans h.size
  entry y hy := by rw [hs, if_neg (hy x hx), h.entry y hy]
  emissions := by
    have hdropped : new.filter (·.tensor ∉ nodes) = [] :=
      List.filter_eq_nil_iff.2 fun m hm => by simp [hnew m hm, hx]
    rw [hemissions, List.filter_append, h.emissions, hdropped, List.append_nil]

/-- Nothing is emitted for nodes that are not listed. -/
theorem Spares.filter_emissions {r base : Run} {nodes nodes' : List NodeRef}
    (h : r.Spares nodes base) (hdisjoint : ∀ x ∈ nodes, ∀ y ∈ nodes', x.index ≠ y.index) :
    r.emissions.filter (·.tensor ∈ nodes') = base.emissions.filter (·.tensor ∈ nodes') := by
  have hothers : ∀ l : List Emission, (l.filter (·.tensor ∉ nodes)).filter (·.tensor ∈ nodes') =
      l.filter (·.tensor ∈ nodes') := by
    intro l
    rw [List.filter_filter]
    refine List.filter_congr fun m _ => ?_
    by_cases hm : m.tensor ∈ nodes'
    · have hnot : m.tensor ∉ nodes := fun hmem => hdisjoint _ hmem _ hm rfl
      simp [hm, hnot]
    · simp [hm]
  rw [← hothers r.emissions, h.emissions, hothers]

end Run

/-- Nodes that two workspaces have in common.  In the second one, their consumers may be called
otherwise. -/
structure Pairing where
  left : Workspace
  right : Workspace
  /-- The graph of the nodes. -/
  graph : Nat
  nodes : List NodeRef
  rename : NodeRef → NodeRef
  /-- The tensors that have several readers on one side just if they have on the other one. -/
  counted : NodeRef → Prop
  injective : Function.Injective rename
  fixed : ∀ x ∈ nodes, rename x = x
  graph_eq : ∀ x ∈ nodes, x.graph = graph
  node_eq : ∀ x ∈ nodes, right.node x = left.node x
  inputs : ∀ n ∈ nodes, ∀ x ∈ (left.node n).inputs, x ∈ nodes ∧ counted x

namespace Pairing

/-- The second state knows of the common nodes what the first one knows.  Of other nodes, the two
states know what they knew in the states `base`. -/
structure Follows (P : Pairing) (base : Run × Run) (r r' : Run) : Prop where
  size : ∀ x ∈ P.nodes, x.index < r.entries.size ∧ x.index < r'.entries.size
  mirrors : ∀ x ∈ P.nodes, (r.entry x).Mirrors P.rename (r'.entry x)
  shared : ∀ x ∈ P.nodes, P.counted x → (1 < (r'.entry x).readers ↔ 1 < (r.entry x).readers)
  sensitive : ∀ x ∈ P.nodes, r'.sensitive P.right x = (r.sensitive P.left x).map P.rename
  rules : ∀ x ∈ P.nodes, r'.rules P.right x = r.rules P.left x
  emissions : r'.emissions.filter (·.tensor ∈ P.nodes) = r.emissions.filter (·.tensor ∈ P.nodes)
  left : r.Spares P.nodes base.1
  right : r'.Spares P.nodes base.2

variable {P : Pairing} {base : Run × Run} {r r' : Run} {x : NodeRef}

namespace Follows

/-- The states that were started from may be the present ones. -/
theorem rebase (h : P.Follows base r r') : P.Follows (r, r') r r' :=
  { h with left := .refl .., right := .refl .. }

/-- In both analyses, other nodes may be dealt with. -/
theorem of_spares (h : P.Follows base r r') {s s' : Run} {nodes nodes' : List NodeRef}
    (hs : s.Spares nodes r) (hs' : s'.Spares nodes' r')
    (hdisjoint : ∀ x ∈ nodes, ∀ y ∈ P.nodes, x.index ≠ y.index)
    (hdisjoint' : ∀ x ∈ nodes', ∀ y ∈ P.nodes, x.index ≠ y.index) : P.Follows (s, s') s s' := by
  have hentry : ∀ y ∈ P.nodes, s.entry y = r.entry y :=
    fun y hy => hs.entry y fun x hx => hdisjoint x hx y hy
  have hentry' : ∀ y ∈ P.nodes, s'.entry y = r'.entry y :=
    fun y hy => hs'.entry y fun x hx => hdisjoint' x hx y hy
  constructor
  case size =>
    intro x hx
    rw [hs.size, hs'.size]
    exact h.size x hx
  case mirrors =>
    intro x hx
    rw [hentry x hx, hentry' x hx]
    exact h.mirrors x hx
  case shared =>
    intro x hx
    rw [hentry x hx, hentry' x hx]
    exact h.shared x hx
  case sensitive =>
    intro x hx
    rw [Run.sensitive, Run.sensitive, hentry x hx, hentry' x hx]
    exact h.sensitive x hx
  case rules =>
    intro x hx
    rw [Run.rules, Run.rules, hentry x hx, hentry' x hx]
    exact h.rules x hx
  case emissions => rw [hs.filter_emissions hdisjoint, hs'.filter_emissions hdisjoint', h.emissions]
  case left => exact .refl ..
  case right => exact .refl ..

theorem read_eq (h : P.Follows base r r') (hx : x ∈ P.nodes) (c : Option NodeRef) :
    r'.read x (c.map P.rename) = (r.read x c).map (PaddingValue.retarget P.rename) :=
  (h.mirrors x hx).read_eq P.injective x c

/-- One tensor is changed in both states, in the same way. -/
theorem update {s s' : Run} (h : P.Follows base r r') (hx : x ∈ P.nodes) {f f' : Entry → Entry}
    (hs : ∀ y, s.entry y = if x.index = y.index then f (r.entry y) else r.entry y)
    (hs' : ∀ y, s'.entry y = if x.index = y.index then f' (r'.entry y) else r'.entry y)
    (hsize : s.entries.size = r.entries.size) (hsize' : s'.entries.size = r'.entries.size)
    (hf : ∀ e, (f e).consumers = e.consumers ∧ (f e).readers = e.readers)
    (hf' : ∀ e, (f' e).consumers = e.consumers ∧ (f' e).readers = e.readers)
    (hmirrors : (f (r.entry x)).Mirrors P.rename (f' (r'.entry x))) {new : List Emission}
    (hnew : ∀ m ∈ new, m.tensor = x) (hemissions : s.emissions = r.emissions ++ new)
    (hemissions' : s'.emissions = r'.emissions ++ new) : P.Follows base s s' := by
  have hstatic : ∀ y, (s.entry y).consumers = (r.entry y).consumers ∧
      (s.entry y).readers = (r.entry y).readers := by
    intro y
    rw [hs]
    split
    · exact hf _
    · exact ⟨rfl, rfl⟩
  have hstatic' : ∀ y, (s'.entry y).consumers = (r'.entry y).consumers ∧
      (s'.entry y).readers = (r'.entry y).readers := by
    intro y
    rw [hs']
    split
    · exact hf' _
    · exact ⟨rfl, rfl⟩
  constructor
  case size =>
    intro y hy
    rw [hsize, hsize']
    exact h.size y hy
  case mirrors =>
    intro y hy
    rw [hs, hs']
    by_cases hxy : x = y
    · subst hxy
      simpa using hmirrors
    · have hne := Run.index_ne (P.graph_eq x hx) (P.graph_eq y hy) hxy
      rw [if_neg hne, if_neg hne]
      exact h.mirrors y hy
  case shared =>
    intro y hy hcounted
    rw [(hstatic y).2, (hstatic' y).2]
    exact h.shared y hy hcounted
  case sensitive =>
    intro y hy
    rw [Run.sensitive, Run.sensitive, (hstatic y).1, (hstatic' y).1]
    exact h.sensitive y hy
  case rules =>
    intro y hy
    rw [Run.rules, Run.rules, (hstatic y).1, (hstatic' y).1]
    exact h.rules y hy
  case emissions =>
    rw [hemissions, hemissions', List.filter_append, List.filter_append, h.emissions]
  case left => exact h.left.update hx hs hsize hnew hemissions
  case right => exact h.right.update hx hs' hsize' hnew hemissions'

theorem modifyEntry (h : P.Follows base r r') (hx : x ∈ P.nodes) {f f' : Entry → Entry}
    (hf : ∀ e, (f e).consumers = e.consumers ∧ (f e).readers = e.readers)
    (hf' : ∀ e, (f' e).consumers = e.consumers ∧ (f' e).readers = e.readers)
    (hmirrors : ∀ e e', e.Mirrors P.rename e' → (f e).Mirrors P.rename (f' e')) :
    P.Follows base (r.modifyEntry x f) (r'.modifyEntry x f') := by
  obtain ⟨hsize, hsize'⟩ := h.size x hx
  exact h.update hx (Run.entry_modifyEntry hsize f) (Run.entry_modifyEntry hsize' f')
    (Run.size_modifyEntry ..) (Run.size_modifyEntry ..) hf hf' (hmirrors _ _ (h.mirrors x hx))
    (fun _ hm => absurd hm List.not_mem_nil) (List.append_nil _).symm (List.append_nil _).symm

theorem modifySetting (h : P.Follows base r r') (hx : x ∈ P.nodes) {f f' : Setting → Setting}
    (hf : ∀ s, (f s).retarget P.rename = f' (s.retarget P.rename)) (i : Nat) :
    P.Follows base (r.modifyEntry x fun e => e.modifySetting i f)
      (r'.modifyEntry x fun e => e.modifySetting i f') :=
  h.modifyEntry hx (fun _ => ⟨rfl, rfl⟩) (fun _ => ⟨rfl, rfl⟩) fun _ _ hmirrors =>
    hmirrors.modifySetting hf i

theorem addTarget (h : P.Follows base r r') (hx : x ∈ P.nodes) (c : Option NodeRef) :
    P.Follows base (r.modifyEntry x fun e => e.addTarget c)
      (r'.modifyEntry x fun e => e.addTarget (c.map P.rename)) :=
  h.modifyEntry hx (fun _ => ⟨rfl, rfl⟩) (fun _ => ⟨rfl, rfl⟩) fun _ _ hmirrors =>
    hmirrors.addTarget P.injective c

theorem rely (h : P.Follows base r r') (hx : x ∈ P.nodes) (c : Option NodeRef) :
    P.Follows base (r.modifyEntry x fun e => e.rely c)
      (r'.modifyEntry x fun e => e.rely (c.map P.rename)) :=
  h.modifyEntry hx (fun _ => ⟨Entry.consumers_rely .., Entry.readers_rely ..⟩)
    (fun _ => ⟨Entry.consumers_rely .., Entry.readers_rely ..⟩) fun _ _ hmirrors =>
      hmirrors.rely P.injective c

theorem write (h : P.Follows base r r') (hx : x ∈ P.nodes) (c : Option NodeRef)
    (fill : Fill) (t : Bool) :
    P.Follows base (r.write c x fill t) (r'.write (c.map P.rename) x fill t) := by
  obtain ⟨hsize, hsize'⟩ := h.size x hx
  have hmirrors := h.mirrors x hx
  have hlength : (r'.entry x).settings.length = (r.entry x).settings.length := by
    rw [hmirrors.settings, List.length_map]
  have hnew : r'.newEmissions x fill t = r.newEmissions x fill t := by
    rw [Run.newEmissions, Run.newEmissions, hmirrors.settingOf?_eq, hlength]
  refine h.update hx (Run.entry_write hsize c fill t) (Run.entry_write hsize' _ fill t)
    (Run.size_write ..) (Run.size_write ..)
    (fun _ => ⟨Entry.consumers_write .., Entry.readers_write ..⟩)
    (fun _ => ⟨Entry.consumers_write .., Entry.readers_write ..⟩)
    (hmirrors.write P.injective c fill t) ?_
    (Run.emissions_write ..) ((Run.emissions_write ..).trans (by rw [hnew]))
  intro m hm
  rw [Run.newEmissions] at hm
  split at hm
  · rw [List.mem_singleton.1 hm]
  · simp at hm

/-- The common node is found to hold something. -/
theorem store (h : P.Follows base r r') (hx : x ∈ P.nodes) (content : Content) :
    P.Follows base (r.modifyEntry x fun e => { e with padding := some ⟨content, some x, []⟩ })
      (r'.modifyEntry x fun e => { e with padding := some ⟨content, some x, []⟩ }) :=
  h.modifyEntry hx (fun _ => ⟨rfl, rfl⟩) (fun _ => ⟨rfl, rfl⟩) fun _ _ hmirrors =>
    ⟨rfl, hmirrors.settings⟩

end Follows

/-! ## The steps of an analysis -/

open RunM

theorem lockstep_record (hx : x ∈ P.nodes) (c : Option NodeRef) (fill : Fill) (t : Bool) :
    Lockstep (P.Follows base) (record P.left c x fill t) (record P.right (c.map P.rename) x fill t)
      fun _ _ => True := by
  cases fill with
  | position e => exact lockstep_modify fun r r' h => h.write hx c (.position e) t
  | constant v =>
    simp only [record, P.node_eq x hx]
    refine lockstep_guard fun _ => lockstep_get.bind fun r r' hr => ?_
    rw [hr.read_eq hx]
    refine (lockstep_need _ _).bind fun current current' hcurrent => ?_
    subst hcurrent
    change Lockstep _ _ (if current.isExact v = true then _ else _) _
    split
    · exact lockstep_modify fun r r' h => h.rely hx c
    · exact lockstep_modify fun r r' h => h.write hx c (.constant v) t

theorem lockstep_demand (hx : x ∈ P.nodes) (hcounted : P.counted x) (c : Option NodeRef)
    (fill : Fill) :
    Lockstep (P.Follows base) (demand P.left c x fill) (demand P.right (c.map P.rename) x fill)
      fun _ _ => True := by
  refine lockstep_get.bind fun r r' hr => ?_
  rw [decide_eq_decide.2 (hr.shared x hx hcounted)]
  exact lockstep_record hx c fill _

theorem operandDType_eq_of_mem {a : Operand} (ha : ∀ x, a = .node x → x ∈ P.nodes) :
    P.right.operandDType a = P.left.operandDType a := by
  cases a with
  | node x => rw [Workspace.operandDType, Workspace.operandDType, P.node_eq x (ha x rfl)]
  | scalar v => rfl
  | symbol name d => rfl

/-- The consumer may look at the operand: it is no node, or a common one on which the consumer has
no lanes to fix unless it is known how many readers there are. -/
def Viewable (P : Pairing) (c : NodeRef) (a : Operand) : Prop :=
  ∀ x, a = .node x → x ∈ P.nodes ∧ (P.counted x ∨ P.left.laneFix c x = [])

section

variable {c : NodeRef} (haxes : (P.right.node (P.rename c)).axes = (P.left.node c).axes)

include haxes

theorem laneFix_eq (hx : x ∈ P.nodes) : P.right.laneFix (P.rename c) x = P.left.laneFix c x := by
  rw [Workspace.laneFix, Workspace.laneFix, Node.replicatedAxes, Node.replicatedAxes,
    P.node_eq x hx, Node.alignedAxes_congr haxes]

theorem axesIntoPadding_eq (hx : x ∈ P.nodes) :
    (P.right.node (P.rename c)).axesIntoPadding (P.right.node x) =
      (P.left.node c).axesIntoPadding (P.left.node x) := by
  rw [Node.axesIntoPadding, Node.axesIntoPadding, P.node_eq x hx, Node.alignedAxes_congr haxes]

theorem lockstep_look (hx : x ∈ P.nodes) :
    Lockstep (P.Follows base) (look P.left c x) (look P.right (P.rename c) x)
      fun o o' => o' = o.map (PaddingValue.retarget P.rename) := by
  have hreads : (P.right.node (P.rename c)).paddingReadsPadding (P.right.node x) =
      (P.left.node c).paddingReadsPadding (P.left.node x) := by
    rw [Node.paddingReadsPadding, Node.paddingReadsPadding, P.node_eq x hx,
      Node.alignedAxes_congr haxes]
  refine lockstep_get.bind fun r r' hr => ?_
  have hown : r'.read x (some (P.rename c)) =
      (r.read x (some c)).map (PaddingValue.retarget P.rename) :=
    hr.read_eq hx (some c)
  simp only [P.axesIntoPadding_eq haxes hx, hreads, hown]
  split
  · exact lockstep_pure rfl
  · split
    · refine (lockstep_need _ _).bind fun p p' hp => lockstep_pure ?_
      rw [hp, PaddingValue.meetData_retarget, Option.map_some]
    · exact lockstep_pure rfl

/-- **Looking at an operand.** -/
theorem lockstep_view {a : Operand} (ha : P.Viewable c a) :
    Lockstep (P.Follows base) (view P.left c a) (view P.right (P.rename c) a)
      fun o o' => o' = o.map (PaddingValue.retarget P.rename) := by
  cases a with
  | scalar v => exact lockstep_pure rfl
  | symbol name d => exact lockstep_pure rfl
  | node x =>
    obtain ⟨hx, hfix⟩ := ha x rfl
    have hfixes := P.laneFix_eq haxes hx
    rw [view_node, view_node, Workspace.laneFixExpr, Workspace.laneFixExpr, hfixes]
    split
    · exact P.lockstep_look haxes hx
    · rename_i hsome
      exact (P.lockstep_demand hx (hfix.resolve_right hsome) (some c) _).bind fun _ _ _ =>
        P.lockstep_look haxes hx

/-- **Taking a branch of a selection.** -/
theorem lockstep_resolveBranch {a : Operand} (ha : P.Viewable c a) :
    Lockstep (P.Follows base) (resolveBranch P.left c a) (resolveBranch P.right (P.rename c) a)
      fun o o' => o' = o.map (PaddingValue.retarget P.rename) := by
  refine (P.lockstep_view haxes ha).bind fun seen seen' hseen => ?_
  cases a with
  | scalar v => exact lockstep_pure hseen
  | symbol name d => exact lockstep_pure hseen
  | node x =>
    obtain ⟨hx, -⟩ := ha x rfl
    refine lockstep_get.bind fun r r' hr => ?_
    have hmirrors := hr.mirrors x hx
    have hsource : (r'.entry x).source? (some (P.rename c)) = (r.entry x).source? (some c) :=
      hmirrors.source?_eq P.injective (some c)
    dsimp only
    rw [hmirrors.lastDemanded?_eq P.injective, hsource, hmirrors.padding]
    cases lastDemanded? (r.entry x) c with
    | some i =>
      refine (lockstep_modify fun s s' hs => ?_).bind fun _ _ _ => lockstep_pure hseen
      refine hs.modifySetting hx (fun u => ?_) i
      rw [Setting.isTargeted_retarget]
      split
      · exact congrArg (Setting.mk u.kind u.fill · _) (map_insertLast P.injective u.targets c)
      · rfl
    | none =>
      cases (r.entry x).source? (some c) with
      | some i =>
        refine (lockstep_modify fun s s' hs => ?_).bind fun _ _ _ => lockstep_pure hseen
        exact hs.modifySetting hx
          (fun u => Setting.retarget_addDemand P.injective u (some c) false) i
      | none =>
        refine (lockstep_need _ _).bind fun _ _ _ => ?_
        refine (lockstep_modify fun s s' hs => hs.addTarget hx (some c)).bind fun _ _ _ => ?_
        rw [P.axesIntoPadding_eq haxes hx]
        split
        · exact lockstep_get.bind fun s s' hs => lockstep_pure (hs.mirrors x hx).padding
        · exact lockstep_pure hseen

/-- **Selecting between two branches.** -/
theorem lockstep_selectPadding {cond cond' : PaddingValue} (hcond : cond'.content = cond.content)
    {t f : Operand} (ht : P.Viewable c t) (hf : P.Viewable c f) :
    Lockstep (P.Follows base) (selectPadding P.left c cond t f)
      (selectPadding P.right (P.rename c) cond' t f)
      fun o o' => o' = o.map (PaddingValue.retarget P.rename) := by
  have hboth : ∀ k : Content, Lockstep (P.Follows base)
      (do
        let seenTrue ← resolveBranch P.left c t
        let seenFalse ← resolveBranch P.left c f
        let t ← need seenTrue
        let f ← need seenFalse
        if t.sameValue f then return some t
        else if k = .unconstrained ∨ t.content = .unconstrained ∨ f.content = .unconstrained then
          return some .unconstrained
        else return some .dependent)
      (do
        let seenTrue ← resolveBranch P.right (P.rename c) t
        let seenFalse ← resolveBranch P.right (P.rename c) f
        let t ← need seenTrue
        let f ← need seenFalse
        if t.sameValue f then return some t
        else if k = .unconstrained ∨ t.content = .unconstrained ∨ f.content = .unconstrained then
          return some .unconstrained
        else return some .dependent)
      fun o o' => o' = o.map (PaddingValue.retarget P.rename) := by
    intro k
    refine (P.lockstep_resolveBranch haxes ht).bind fun seenTrue _ htrue => ?_
    refine (P.lockstep_resolveBranch haxes hf).bind fun seenFalse _ hfalse => ?_
    subst htrue hfalse
    refine (lockstep_need _ _).bind fun p _ hp => (lockstep_need _ _).bind fun q _ hq => ?_
    subst hp hq
    change Lockstep _ _ (if p.sameValue q = true then pure (some (p.retarget P.rename)) else
      if k = .unconstrained ∨ p.content = .unconstrained ∨ q.content = .unconstrained then
        pure (some .unconstrained)
      else pure (some .dependent)) _
    split
    · exact lockstep_pure rfl
    · split
      · exact lockstep_pure rfl
      · exact lockstep_pure rfl
  rw [selectPadding, selectPadding, hcond]
  cases cond.content with
  | exact v =>
    refine lockstep_guard fun _ => ?_
    split
    · exact P.lockstep_resolveBranch haxes hf
    · exact P.lockstep_resolveBranch haxes ht
  | dependent e => exact hboth _
  | unconstrained => exact hboth _
  | unknown code => exact hboth _

end

/-! ### Common nodes -/

section

variable {n : NodeRef} (engine : Engine) (hn : n ∈ P.nodes)

include hn

theorem viewable_of_mem {a : Operand} (ha : a ∈ (P.left.node n).operands) : P.Viewable n a := by
  rintro x rfl
  obtain ⟨hx, hcounted⟩ := P.inputs n hn x (List.mem_filterMap.2 ⟨_, ha, rfl⟩)
  exact ⟨hx, .inl hcounted⟩

/-- A common node is called the same on both sides. -/
theorem axes_eq : (P.right.node (P.rename n)).axes = (P.left.node n).axes := by
  rw [P.fixed n hn, P.node_eq n hn]

theorem operandDType_eq {a : Operand} (ha : a ∈ (P.left.node n).operands) :
    P.right.operandDType a = P.left.operandDType a :=
  P.operandDType_eq_of_mem fun x hx => (P.viewable_of_mem hn ha x hx).1

theorem lockstep_operandView {a : Operand} (ha : a ∈ (P.left.node n).operands) :
    Lockstep (P.Follows base) (view P.left n a) (view P.right n a)
      fun o o' => o' = o.map (PaddingValue.retarget P.rename) := by
  have hview : Lockstep (P.Follows base) _ _ _ :=
    P.lockstep_view (P.axes_eq hn) (P.viewable_of_mem hn ha)
  rwa [P.fixed n hn] at hview

theorem lockstep_viewPair (op : OpKind) :
    Lockstep (P.Follows base) (viewPair P.left n op) (viewPair P.right n op) fun o o' =>
      o' = (o.1.map (PaddingValue.retarget P.rename),
        o.2.map (PaddingValue.retarget P.rename)) := by
  simp only [viewPair, P.node_eq n hn]
  refine (lockstep_operand _ 0).bind fun a _ ha => (lockstep_operand _ 1).bind fun b _ hb => ?_
  obtain ⟨rfl, ha⟩ := ha
  obtain ⟨rfl, hb⟩ := hb
  rw [P.operandDType_eq hn ha, P.operandDType_eq hn hb]
  refine lockstep_guard fun _ => ?_
  refine (P.lockstep_operandView hn ha).bind fun o _ ho => (P.lockstep_operandView hn hb).bind
    fun p _ hp => ?_
  exact lockstep_pure (by rw [ho, hp])

theorem lockstep_simulateCompare (op : OpKind) (mode : CompareMode) :
    Lockstep (P.Follows base) (simulateCompare P.left engine n op mode)
      (simulateCompare P.right engine n op mode) Eq := by
  refine (P.lockstep_viewPair hn op).bind fun o _ ho => ?_
  subst ho
  refine (lockstep_need _ _).bind fun p _ hp => (lockstep_need _ _).bind fun q _ hq => ?_
  subst hp hq
  exact lockstep_lift _

theorem lockstep_simulateReduce (fn : ReduceFn) (axes : List Nat) :
    Lockstep (P.Follows base) (simulateReduce P.left engine n fn axes)
      (simulateReduce P.right engine n fn axes) Eq := by
  simp only [simulateReduce, P.node_eq n hn]
  refine (lockstep_operand _ 0).bind fun _ a ha => ?_
  obtain ⟨rfl, ha⟩ := ha
  cases a with
  | scalar v => exact lockstep_throw
  | symbol name d => exact lockstep_throw
  | node x =>
    obtain ⟨hx, hcounted⟩ := P.inputs n hn x (List.mem_filterMap.2 ⟨_, ha, rfl⟩)
    simp only [Operand.node?, P.node_eq x hx]
    split
    · refine lockstep_get.bind fun r r' hr => ?_
      have hread := hr.read_eq hx (some n)
      rw [Option.map_some, P.fixed n hn] at hread
      rw [hread]
      refine (lockstep_need _ _).bind fun p _ hp => ?_
      subst hp
      exact lockstep_lift _
    · refine (lockstep_lift _).bind fun v _ hv => ?_
      subst hv
      have hdemand : Lockstep (P.Follows base) _ _ _ :=
        P.lockstep_demand hx hcounted (some n) (.constant v)
      rw [Option.map_some, P.fixed n hn] at hdemand
      exact hdemand.bind fun _ _ _ => lockstep_pure rfl

/-- A node that looks at its first operand, and goes on with what it sees. -/
theorem lockstep_needView {α : Type} {k k' : PaddingValue → RunM α} {Q : α → α → Prop}
    (hk : ∀ p : PaddingValue, Lockstep (P.Follows base) (k p) (k' (p.retarget P.rename)) Q) :
    Lockstep (P.Follows base) (do k (← need (← view P.left n (← operand (P.left.node n) 0))))
      (do k' (← need (← view P.right n (← operand (P.left.node n) 0)))) Q := by
  refine (lockstep_operand _ 0).bind fun _ a ha => ?_
  obtain ⟨rfl, ha⟩ := ha
  refine (P.lockstep_operandView hn ha).bind fun o _ ho => ?_
  subst ho
  refine (lockstep_need _ _).bind fun p _ hp => ?_
  subst hp
  exact hk p

/-- A node that selects between two of its operands. -/
theorem lockstep_needSelect {cond cond' : PaddingValue}
    (hcond : cond'.content = cond.content) (i j : Nat) :
    Lockstep (P.Follows base)
      (do need (← selectPadding P.left n cond (← operand (P.left.node n) i)
        (← operand (P.left.node n) j)))
      (do need (← selectPadding P.right n cond' (← operand (P.left.node n) i)
        (← operand (P.left.node n) j)))
      fun p p' => p'.content = p.content := by
  refine (lockstep_operand _ i).bind fun _ t ht => (lockstep_operand _ j).bind fun _ f hf => ?_
  obtain ⟨rfl, ht⟩ := ht
  obtain ⟨rfl, hf⟩ := hf
  have hselect : Lockstep (P.Follows base) _ _ _ := P.lockstep_selectPadding (P.axes_eq hn) hcond
    (P.viewable_of_mem hn ht) (P.viewable_of_mem hn hf)
  rw [P.fixed n hn] at hselect
  refine hselect.bind fun o _ ho => ?_
  subst ho
  exact (lockstep_need _ _).mono fun p p' hp => by rw [hp]; rfl

/-- **Inferring what a common node holds.** -/
theorem lockstep_simulate :
    Lockstep (P.Follows base) (simulate P.left engine n) (simulate P.right engine n)
      fun p p' => p'.content = p.content := by
  have heq : ∀ {m m' : RunM PaddingValue}, Lockstep (P.Follows base) m m' Eq →
      Lockstep (P.Follows base) m m' fun p p' => p'.content = p.content :=
    fun h => h.mono fun p p' hp => by rw [hp]
  simp only [simulate, P.node_eq n hn]
  cases (P.left.node n).op with
  | placeholder declared => exact heq (lockstep_lift _)
  | constant v => exact lockstep_pure rfl
  | unary fn => exact heq (P.lockstep_needView hn fun p => lockstep_lift _)
  | cast => exact heq (P.lockstep_needView hn fun p => lockstep_lift _)
  | binary fn =>
    refine heq ((P.lockstep_viewPair hn (.binary fn)).bind fun o _ ho => ?_)
    subst ho
    refine (lockstep_need _ _).bind fun p _ hp => (lockstep_need _ _).bind fun q _ hq => ?_
    subst hp hq
    exact lockstep_lift _
  | broadcast =>
    refine (lockstep_operand _ 0).bind fun _ a ha => ?_
    obtain ⟨rfl, ha⟩ := ha
    refine (P.lockstep_operandView hn ha).bind fun o _ ho => ?_
    subst ho
    exact (lockstep_need _ _).mono fun p p' hp => by rw [hp]; rfl
  | reduce fn axes keep => exact heq (P.lockstep_simulateReduce engine hn fn axes)
  | compare mode => exact heq (P.lockstep_simulateCompare engine hn .compare mode)
  | select =>
    refine P.lockstep_needView hn fun p => ?_
    have hcontent : (p.retarget P.rename).content = p.content := rfl
    exact P.lockstep_needSelect hn hcontent 1 2
  | cmpSel mode =>
    refine (P.lockstep_simulateCompare engine hn .cmpSel mode).bind fun cond _ hcond => ?_
    exact P.lockstep_needSelect hn (by rw [hcond]) 2 3
  | _ => exact lockstep_throw

/-- **Simulating a common node.** -/
theorem lockstep_visit :
    Lockstep (P.Follows base) (visit P.left engine n) (visit P.right engine n) fun _ _ => True := by
  refine (P.lockstep_simulate engine hn).bind fun p p' hp => ?_
  have hstore : ∀ content : Content, Lockstep (P.Follows base)
      (modify fun s => s.modifyEntry n fun e => { e with padding := some ⟨content, some n, []⟩ })
      (modify fun s => s.modifyEntry n fun e => { e with padding := some ⟨content, some n, []⟩ })
      fun _ _ => True := fun content => lockstep_modify fun s s' hs => hs.store hn content
  rw [hp, P.node_eq n hn]
  cases p.content with
  | exact v => exact lockstep_guard fun _ => hstore _
  | dependent e => exact hstore _
  | unconstrained => exact hstore _
  | unknown code => exact hstore _

/-- **Making a common node safe for its consumers.** -/
theorem lockstep_requireSafe :
    Lockstep (P.Follows base) (requireSafe P.left n) (requireSafe P.right n) fun _ _ => True := by
  refine lockstep_get.bind fun r r' hr => ?_
  change Lockstep _
    (if (r.sensitive P.left n).isEmpty = true then pure () else
      need (r.entry n).padding >>= fun p =>
        if Run.isSafe (r.rules P.left n) p = true then
          (r.sensitive P.left n).forM fun c => modify fun r => r.modifyEntry n fun e =>
            e.addTarget (some c)
        else
          lift (RunError.ofScalar
            (FaultRule.fill? (r.rules P.left n) (P.left.node n).dtype
              (r.rules P.left n))) >>= _)
    (if (r'.sensitive P.right n).isEmpty = true then pure () else
      need (r'.entry n).padding >>= fun p =>
        if Run.isSafe (r'.rules P.right n) p = true then
          (r'.sensitive P.right n).forM fun c => modify fun r => r.modifyEntry n fun e =>
            e.addTarget (some c)
        else
          lift (RunError.ofScalar
            (FaultRule.fill? (r'.rules P.right n) (P.right.node n).dtype
              (r'.rules P.right n))) >>= _) _
  rw [hr.sensitive n hn, hr.rules n hn, P.node_eq n hn, (hr.mirrors n hn).padding, List.isEmpty_map]
  split
  · exact lockstep_pure trivial
  · refine (lockstep_need _ _).bind fun p _ hp => ?_
    subst hp
    change Lockstep _ _ (ite (Run.isSafe _ p = true) _ _) _
    split
    · exact lockstep_forM fun c _ => lockstep_modify fun s s' hs => hs.addTarget hn (some c)
    · refine (lockstep_lift _).bind fun o _ ho => ?_
      subst ho
      cases o with
      | none => exact lockstep_throw
      | some v =>
        change Lockstep _ ((r.sensitive P.left n).forM _) ((r'.sensitive P.right n).forM _) _
        rw [hr.sensitive n hn]
        exact lockstep_forM fun c _ => lockstep_record hn (some c) (.constant v) false

/-- **Simulating a common node.** -/
theorem lockstep_step :
    Lockstep (P.Follows base) (engine.step P.left n) (engine.step P.right n) fun _ _ => True :=
  (P.lockstep_visit engine hn).bind fun _ _ _ => P.lockstep_requireSafe hn

end

/-- **Storing a common node**, when it is known whether there are other readers. -/
theorem lockstep_requireOutput {root : NodeRef} (hroot : root ∈ P.nodes)
    (hcounted : P.counted root) :
    Lockstep (P.Follows base) (requireOutput P.left root) (requireOutput P.right root)
      fun _ _ => True := by
  simp only [requireOutput, P.node_eq root hroot]
  split
  · refine (lockstep_lift _).bind fun zero _ hzero => ?_
    subst hzero
    refine lockstep_get.bind fun r r' hr => ?_
    have hread : r'.read root none = (r.read root none).map (PaddingValue.retarget P.rename) :=
      hr.read_eq hroot none
    rw [hread]
    refine (lockstep_need _ _).bind fun current _ hcurrent => ?_
    subst hcurrent
    change Lockstep _ _ (if (!current.isExact zero) = true then _ else _) _
    split
    · refine lockstep_get.bind fun s s' hs => ?_
      rw [if_congr (hs.shared root hroot hcounted) rfl rfl]
      split
      · simpa only [Option.map_some, P.fixed root hroot] using
          P.lockstep_record hroot (some root) (.constant zero) true
      · exact lockstep_record hroot none (.constant zero) false
    · exact lockstep_pure trivial
  · exact lockstep_pure trivial

/-- **Simulating common nodes**, one after the other. -/
theorem lockstep_steps (engine : Engine) {l : List NodeRef} (hl : ∀ n ∈ l, n ∈ P.nodes) :
    Lockstep (P.Follows base) (l.forM (engine.step P.left)) (l.forM (engine.step P.right))
      fun _ _ => True := by
  have hsteps : Lockstep (P.Follows base) (l.forM (engine.step P.left))
      ((l.map id).forM (engine.step P.right)) fun _ _ => True :=
    lockstep_forM fun n hn => P.lockstep_step engine (hl n hn)
  rwa [List.map_id] at hsteps

/-! ## The start and the end -/

/-- The nodes are the common ones, in the same order, and further ones that do not fault on common
ones. -/
structure Extends (P : Pairing) (w : Workspace) (nodes : List NodeRef) : Prop where
  common : nodes.filter (· ∈ P.nodes) = P.nodes
  safe : ∀ c ∈ nodes, c ∉ P.nodes → ∀ x ∈ P.nodes, x ∈ (w.node c).inputs →
    FaultRule.applying? w x c = none

theorem Extends.sensitive_initial {w : Workspace} {nodes : List NodeRef} (h : P.Extends w nodes)
    (outputs : List NodeRef) (hx : x ∈ P.nodes) (hhas : w.Has x) :
    (Run.initial w P.graph nodes outputs).sensitive w x =
      P.nodes.filter fun c => x ∈ (w.node c).inputs ∧ (FaultRule.applying? w x c).isSome := by
  rw [Run.sensitive, Run.entry_initial (P.graph_eq x hx) hhas, List.filter_filter]
  nth_rewrite 1 [← h.common]
  rw [List.filter_filter]
  refine List.filter_congr fun c hc => ?_
  by_cases hcommon : c ∈ P.nodes
  · simp [hcommon, and_comm]
  · by_cases hinput : x ∈ (w.node c).inputs
    · simp [h.safe c hc hcommon x hx hinput]
    · simp [hinput]

/-- **The start**: nothing is known but the readers. -/
theorem follows_initial {nodes nodes' outputs outputs' : List NodeRef}
    (hleft : P.Extends P.left nodes) (hright : P.Extends P.right nodes')
    (hhas : ∀ x ∈ P.nodes, P.left.Has x ∧ P.right.Has x) (hshared : ∀ x ∈ P.nodes, P.counted x →
      (1 < (nodes'.filter fun c => x ∈ (P.right.node c).inputs).length +
        (if x ∈ outputs' then 1 else 0) ↔
          1 < (nodes.filter fun c => x ∈ (P.left.node c).inputs).length +
            if x ∈ outputs then 1 else 0)) :
    P.Follows (.initial P.left P.graph nodes outputs, .initial P.right P.graph nodes' outputs')
      (.initial P.left P.graph nodes outputs) (.initial P.right P.graph nodes' outputs') := by
  have hsensitive : ∀ x ∈ P.nodes,
      (Run.initial P.right P.graph nodes' outputs').sensitive P.right x =
        (Run.initial P.left P.graph nodes outputs).sensitive P.left x := by
    intro x hx
    rw [hright.sensitive_initial _ hx (hhas x hx).2, hleft.sensitive_initial _ hx (hhas x hx).1]
    refine List.filter_congr fun c hc => ?_
    rw [FaultRule.applying?, FaultRule.applying?, P.node_eq c hc, P.node_eq x hx]
  have hcommon : ∀ x ∈ P.nodes, ∀ c ∈ (Run.initial P.left P.graph nodes outputs).sensitive P.left x,
      c ∈ P.nodes := by
    intro x hx c hc
    rw [hleft.sensitive_initial _ hx (hhas x hx).1] at hc
    exact (List.mem_filter.1 hc).1
  constructor
  case size =>
    intro x hx
    rw [(Run.coherent_initial ..).size, (Run.coherent_initial ..).size, ← P.graph_eq x hx]
    exact hhas x hx
  case mirrors =>
    intro x _
    exact ⟨by simp [Run.entry_initial_padding], by simp [Run.entry_initial_settings]⟩
  case shared =>
    intro x hx hcounted
    rw [Run.entry_initial (P.graph_eq x hx) (hhas x hx).1,
      Run.entry_initial (P.graph_eq x hx) (hhas x hx).2]
    exact hshared x hx hcounted
  case sensitive =>
    intro x hx
    rw [hsensitive x hx]
    exact ((List.map_congr_left fun c hc => P.fixed c (hcommon x hx c hc)).trans
      (List.map_id _)).symm
  case rules =>
    intro x hx
    rw [Run.rules_eq, Run.rules_eq, hsensitive x hx]
    refine List.filterMap_congr fun c hc => ?_
    rw [FaultRule.applying?, FaultRule.applying?, P.node_eq c (hcommon x hx c hc), P.node_eq x hx]
  case emissions => rfl
  case left => exact .refl ..
  case right => exact .refl ..

/-- **The end**: the actions on common nodes are the same. -/
theorem Follows.actions_eq (h : P.Follows base r r') :
    r'.actions.filter (·.tensor ∈ P.nodes) =
      (r.actions.filter (·.tensor ∈ P.nodes)).map (Action.retarget P.rename) := by
  have hsame : ∀ m : Emission, m.tensor ∈ P.nodes →
      r'.action? m = (r.action? m).map (Action.retarget P.rename) := by
    intro m hm
    rw [Run.action?, Run.action?, (h.mirrors _ hm).settings, List.getElem?_map, Option.map_map,
      Option.map_map]
    rfl
  rw [Run.filter_actions, Run.filter_actions, h.emissions, List.map_filterMap]
  exact List.filterMap_congr fun m hm => hsame m (by simpa using (List.mem_filter.1 hm).2)

end Pairing

/-! ## The whole of an analysis -/

namespace Engine

variable {engine : Engine} {w : Workspace}

/-- What an analysis does once the nodes and the outputs are listed. -/
def process (engine : Engine) (w : Workspace) (nodes outputs : List NodeRef) : RunM Unit := do
  nodes.forM (engine.step w)
  RunM.requireOutputs w engine outputs

theorem simulateFrom_eq_ok (count i : Nat) {nodes : List NodeRef} {r r' : Run} :
    engine.simulateFrom w count i nodes r = .ok r' ↔
      (nodes.forM (engine.step w)).Yields r () r' := by
  induction nodes generalizing i r with
  | nil => rw [simulateFrom, Except.ok.injEq, RunM.yields_forM_nil, eq_comm]
  | cons n rest ih =>
    rw [RunM.yields_forM_cons, simulateFrom]
    split
    · rename_i hstep
      simp [RunM.Yields, hstep]
    · rename_i hstep
      simp [ih, RunM.Yields, hstep]

/-- **An analysis is one computation** on the nodes that the roots lead to. -/
theorem analyze_iff_process {g : Nat} {roots nodes : List NodeRef} {a : Analysis} (hne : roots ≠ [])
    (hgraph : ∀ x ∈ roots, x.graph = g) (hreach : w.reachable roots = .ok nodes) :
    engine.analyze w roots = .ok a ↔ a.graph = g ∧ a.nodes = nodes ∧
      (engine.process w nodes (distinct roots)).Yields (.initial w g nodes (distinct roots))
        () a.run := by
  obtain ⟨first, rest, rfl⟩ := List.exists_cons_of_ne_nil hne
  obtain rfl := hgraph first List.mem_cons_self
  simp only [analyze_eq_ok, simulateFrom_eq_ok, process, RunM.yields_bind]
  constructor
  · rintro ⟨first', rest', simulated, hroots, hgraph', hreach', hsim, houtputs⟩
    obtain ⟨rfl, rfl⟩ := List.cons.inj hroots
    obtain rfl := Except.ok.inj (hreach'.symm.trans hreach)
    exact ⟨hgraph', rfl, (), simulated, hgraph' ▸ hsim, houtputs⟩
  · rintro ⟨hgraph', rfl, u, simulated, hsim, houtputs⟩
    exact ⟨first, rest, simulated, rfl, hgraph', hreach, hgraph' ▸ hsim, houtputs⟩

end Engine
/-! ## The nodes of an analysis -/

/-- Lists of nodes of a graph in its order are the same if they have the same members. -/
theorem eq_of_sorted_index {l l' : List NodeRef} (hl : l.Pairwise fun a b => a.index < b.index)
    (hl' : l'.Pairwise fun a b => a.index < b.index) (hmem : ∀ x, x ∈ l ↔ x ∈ l') : l = l' := by
  have hperm : l.Perm l' :=
    (List.perm_ext_iff_of_nodup (nodup_of_sorted_index hl) (nodup_of_sorted_index hl')).2 hmem
  refine hperm.eq_of_pairwise ?_ hl hl'
  intro a b _ _ hab hba
  omega

/-- Nodes of a graph that read each other only. -/
structure Workspace.IsPart (w : Workspace) (g : Nat) (nodes : List NodeRef) : Prop where
  graph_eq : ∀ x ∈ nodes, x.graph = g
  inputs : ∀ n ∈ nodes, ∀ x ∈ (w.node n).inputs, x ∈ nodes

namespace Workspace

variable {w : Workspace} {roots nodes : List NodeRef}

theorem sorted_of_reachable (hw : w.WellFormed) (h : w.reachable roots = .ok nodes) :
    nodes.Pairwise fun a b => a.index < b.index := by
  cases roots with
  | nil =>
    obtain rfl := Except.ok.inj h
    exact .nil
  | cons first rest => exact (lists_of_reachable hw h).sorted

/-- The nodes are the part of the workspace that the roots lead to. -/
structure PartOf (w : Workspace) (g : Nat) (roots nodes : List NodeRef) :
    Prop extends w.IsPart g nodes where
  reachable : w.reachable roots = .ok nodes
  has : ∀ x ∈ nodes, w.Has x
  mem_iff : ∀ x, x ∈ nodes ↔ w.Reaches roots x

theorem exists_partOf (hw : w.WellFormed) {g : Nat} (hroots : ∀ x ∈ roots, x.graph = g ∧ w.Has x) :
    ∃ nodes, w.PartOf g roots nodes := by
  obtain ⟨nodes, hreach⟩ := w.exists_reachable hw fun x hx => (hroots x hx).1
  have hmem : ∀ x, x ∈ nodes ↔ w.Reaches roots x :=
    fun x => mem_reachable_iff hw (fun x hx => (hroots x hx).2) hreach
  have hall : ∀ x, w.Reaches roots x → x.graph = g ∧ w.Has x := by
    intro x hx
    induction hx with
    | root hx => exact hroots _ hx
    | input _ hx ih => exact ((hw.has_input ih.2 hx).imp_left fun hgraph => hgraph.trans ih.1)
  exact ⟨nodes, ⟨fun x hx => (hall x ((hmem x).1 hx)).1, fun n hn x hx =>
    (hmem x).2 (.input ((hmem n).1 hn) hx)⟩, hreach, fun x hx => (hall x ((hmem x).1 hx)).2, hmem⟩

theorem PartOf.lists (hw : w.WellFormed) {g : Nat} (h : w.PartOf g roots nodes) :
    w.Lists g roots nodes where
  sorted := sorted_of_reachable hw h.reachable
  has x hx := ⟨h.graph_eq x hx, h.has x hx⟩
  inputs := h.inputs
  roots x hx := ⟨h.graph_eq x ((h.mem_iff x).2 (.root hx)), fun _ => (h.mem_iff x).2 (.root hx)⟩

theorem PartOf.analyze_iff {g : Nat} (h : w.PartOf g roots nodes) (hne : roots ≠ [])
    {engine : Engine} {a : Analysis} :
    engine.analyze w roots = .ok a ↔ a.graph = g ∧ a.nodes = nodes ∧
      (engine.process w nodes (distinct roots)).Yields
        (.initial w g nodes (distinct roots)) () a.run :=
  Engine.analyze_iff_process hne (fun x hx => h.graph_eq x ((h.mem_iff x).2 (.root hx))) h.reachable

end Workspace
end LanePadding
