import LanePadding.Proofs.Soundness

/-!
# Padding never reaches real data

A graph computes on stored lanes, of which only the real ones mean anything.  The main result is
`Engine.real_equal_of_analyze`: with the fills of an analysis written, the real lanes of all nodes
hold what they would hold if tensors were stored without padding.

Pointwise operators are no danger, since their real lanes read only real lanes
(`Node.Reads.real_source`), and operators respect equality of scalars (`Machine.Computes.equal`).
Reductions combine padding lanes with real ones.  They read the neutral element there: the setting
that they demanded provides it, or else it is the tensor's own padding value, which is sound.
Neutral elements can be left out one by one (`Platform.Reduces.filter`), and what remains are the
lanes of the tensor without padding.
-/

set_option autoImplicit false

namespace LanePadding

/-! ## Reductions -/

namespace Platform

/-- A lane of the element type can hold the scalar, and it is a number within the limits of the
platform. -/
structure Admits (p : Platform) (d : DType) (s : Scalar) : Prop where
  dtype : s.dtype = d
  rounded : d.round s.value = s.value
  inRange : p.InRange s

/-- The function `f` reduces lanes of an element type: its answers, up to equality, depend on the
lanes only up to equality, and neutral elements can be left out as long as a lane remains. -/
structure Reduces (p : Platform) (fn : ReduceFn) (d : DType) (f : List Scalar → Scalar) : Prop where
  congr : ∀ xs ys, (∀ s ∈ xs, p.Admits d s) → List.Forall₂ (fun s t => s.equal t = true) xs ys →
    (f xs).equal (f ys) = true
  drop : ∀ e, p.neutral (.reduce fn) d = .ok e → ∀ before s after, s.equal e = true →
    (∀ t ∈ before ++ after, p.Admits d t ∨ t.equal e = true) → before ++ after ≠ [] →
    (f (before ++ s :: after)).equal (f (before ++ after)) = true

/-- **All neutral elements can be left out.** -/
theorem Reduces.filter {p : Platform} {fn : ReduceFn} {d : DType} {f : List Scalar → Scalar}
    (h : p.Reduces fn d f) {e : Scalar} (he : p.neutral (.reduce fn) d = .ok e) {α : Type}
    {g : α → Scalar} {keep : α → Bool} {xs : List α}
    (hkept : ∀ a ∈ xs, keep a = true → p.Admits d (g a))
    (hdropped : ∀ a ∈ xs, keep a = false → (g a).equal e = true) (hne : xs.filter keep ≠ []) :
    (f (xs.map g)).equal (f ((xs.filter keep).map g)) = true := by
  -- the lanes before those that are still to be looked at stay as they are
  have hafter : ∀ before : List Scalar, (∀ t ∈ before, p.Admits d t ∨ t.equal e = true) →
      before ++ (xs.filter keep).map g ≠ [] →
      (f (before ++ xs.map g)).equal (f (before ++ (xs.filter keep).map g)) = true := by
    clear hne
    induction xs with
    | nil => exact fun before _ _ => Scalar.equal_refl _
    | cons a as ih =>
      intro before hbefore hne
      have ih := ih (fun b hb => hkept b (by simp [hb])) (fun b hb => hdropped b (by simp [hb]))
      have hadmits : ∀ t ∈ as.map g, p.Admits d t ∨ t.equal e = true := by
        intro t ht
        obtain ⟨b, hb, rfl⟩ := List.mem_map.1 ht
        cases hk : keep b with
        | true => exact .inl (hkept b (by simp [hb]) hk)
        | false => exact .inr (hdropped b (by simp [hb]) hk)
      cases hk : keep a with
      | true =>
        rw [List.filter_cons_of_pos hk] at hne ⊢
        have := ih (before ++ [g a]) (by
          intro t ht
          rcases List.mem_append.1 ht with ht | ht
          · exact hbefore t ht
          · rw [List.mem_singleton.1 ht]
            exact .inl (hkept a (by simp) hk)) (by simp)
        simpa using this
      | false =>
        rw [List.filter_cons_of_neg (by simp [hk])] at hne ⊢
        have hremains : before ++ as.map g ≠ [] := by
          intro hnil
          obtain ⟨rfl, hmap⟩ := List.append_eq_nil_iff.1 hnil
          rw [List.map_eq_nil_iff.1 hmap] at hne
          exact hne rfl
        refine Scalar.equal_trans
          (h.drop e he before (g a) (as.map g) (hdropped a (by simp) hk) ?_ hremains)
          (ih before hbefore hne)
        intro t ht
        exact (List.mem_append.1 ht).elim (hbefore t) (hadmits t)
  have := hafter [] (by simp) (by simpa using hne)
  simpa using this

end Platform

/-- The real lanes among those that are combined are the ones that a tensor without padding has. -/
theorem Lane.filter_real_into {axes : List Axis} (hvalid : ∀ a ∈ axes, a.Valid) (reduced : List Nat)
    (keep : Bool) (l : Lane) :
    (into axes reduced keep l).filter (fun m => Real axes m) =
      into (logicalShape axes) reduced keep l := by
  rw [into, into, ← filter_real_all hvalid, List.filter_filter, List.filter_filter]
  refine List.filter_congr fun m _ => ?_
  rw [Bool.and_comm]

/-! ## Pointwise operators -/

section Pointwise

variable {m m' : Machine} {w : Workspace} {value value' : Values} {n : NodeRef} {l : Lane}

/-- A unary operator respects equality of what its operand holds, unless it divides by a zero. -/
theorem Scalar.evalUnary_equal_of_divisor {op : OpKind} {s t u v : Scalar} {d : DType}
    (heval : evalUnary op s d = .ok u) (heval' : evalUnary op t d = .ok v) (hst : s.equal t = true)
    (hdivisor : op.divides = true → s.isZero = false ∨ s = t) : u.equal v = true := by
  by_cases heq : s = t
  · subst heq
    rw [Except.ok.inj (heval.symm.trans heval')]
    exact equal_refl _
  · exact evalUnary_equal heval heval' hst fun hdiv => (hdivisor hdiv).resolve_right heq

/-- Comparisons of equal operands have one result. -/
theorem Scalar.evalCompare_map_eq {mode : CompareMode} {s t u v : Scalar} {f f' : Bool → Scalar}
    {x y : Scalar} (h : (evalCompare mode s u).map f = .ok x)
    (h' : (evalCompare mode t v).map f' = .ok y) (hst : s.equal t = true)
    (huv : u.equal v = true) : ∃ k, x = f k ∧ y = f' k := by
  obtain ⟨k, heval, rfl⟩ := exists_of_map_eq_ok h
  obtain ⟨k', heval', rfl⟩ := exists_of_map_eq_ok h'
  exact ⟨k', by rw [evalCompare_eq heval heval' hst huv], rfl⟩

/-- **Pointwise operators respect equality** of what their operands hold, except that a zero divisor
must be the very same. -/
theorem Machine.Computes.equal (h : m.Computes w value n l) (h' : m'.Computes w value' n l)
    (hpoint : (w.node n).op.isPointwise = true)
    (harity : (w.node n).op.kind.arity? = some (w.node n).operands.length)
    (harg : ∀ i s t, m.argument? w value n l i = some s →
      m'.argument? w value' n l i = some t → s.equal t = true)
    (hdivisor : (w.node n).op.kind.divides = true → ∀ i s t, (w.node n).operands.length = i + 1 →
      m.argument? w value n l i = some s → m'.argument? w value' n l i = some t →
      s.isZero = false ∨ s = t) :
    (value n l).equal (value' n l) = true := by
  rw [Computes] at h h'
  cases hop : (w.node n).op with
  | unary fn =>
    simp only [hop] at h h' harity hdivisor
    obtain ⟨s, hs, heval⟩ := h
    obtain ⟨t, ht, heval'⟩ := h'
    exact Scalar.evalUnary_equal_of_divisor heval heval' (harg 0 s t hs ht)
      fun hdiv => hdivisor hdiv 0 s t (Option.some.inj harity).symm hs ht
  | cast =>
    simp only [hop] at h h' harity hdivisor
    obtain ⟨s, hs, heval⟩ := h
    obtain ⟨t, ht, heval'⟩ := h'
    exact Scalar.evalUnary_equal_of_divisor heval heval' (harg 0 s t hs ht)
      fun hdiv => hdivisor hdiv 0 s t (Option.some.inj harity).symm hs ht
  | binary fn =>
    simp only [hop] at h h' harity hdivisor
    obtain ⟨s, hs, u, hu, heval⟩ := h
    obtain ⟨t, ht, v, hv, heval'⟩ := h'
    exact Scalar.evalBinary_equal heval heval' (harg 0 s t hs ht) (harg 1 u v hu hv)
      fun hdiv => hdivisor hdiv 1 u v (Option.some.inj harity).symm hu hv
  | broadcast =>
    simp only [hop] at h h'
    exact harg 0 _ _ h h'
  | compare mode =>
    simp only [hop] at h h'
    obtain ⟨s, hs, u, hu, hvalue⟩ := h
    obtain ⟨t, ht, v, hv, hvalue'⟩ := h'
    obtain ⟨k, hk, hk'⟩ :=
      Scalar.evalCompare_map_eq hvalue hvalue' (harg 0 s t hs ht) (harg 1 u v hu hv)
    rw [hk, hk']
    exact Scalar.equal_refl _
  | select =>
    simp only [hop] at h h'
    obtain ⟨k, hk, s, hs, u, hu, hvalue⟩ := h
    obtain ⟨k', hk', t, ht, v, hv, hvalue'⟩ := h'
    have hzero : k.value.isZero = k'.value.isZero :=
      Scalar.isZero_eq_of_equal (harg 0 k k' hk hk')
    rw [hvalue, hvalue', hzero]
    split
    · exact harg 2 u v hu hv
    · exact harg 1 s t hs ht
  | cmpSel mode =>
    simp only [hop] at h h'
    obtain ⟨s, hs, u, hu, x, hx, y, hy, hvalue⟩ := h
    obtain ⟨t, ht, v, hv, x', hx', y', hy', hvalue'⟩ := h'
    obtain ⟨k, hk, hk'⟩ :=
      Scalar.evalCompare_map_eq hvalue hvalue' (harg 0 s t hs ht) (harg 1 u v hu hv)
    rw [hk, hk']
    split
    · exact harg 2 x x' hx hx'
    · exact harg 3 y y' hy hy'
  | _ => simp [hop, Op.isPointwise] at hpoint

end Pointwise

/-! ## Executions without padding -/

/-- The machine without padding stores only real lanes. -/
def Workspace.machine (w : Workspace) (reduction : NodeRef → List Scalar → Scalar)
    (symbol : String → DType → Scalar) : Machine where
  shape n := logicalShape (w.node n).axes
  fill _ _ := none
  reduction := reduction
  symbol := symbol

namespace Analysis

/-- An execution with padding and one without it, on the same real data. -/
structure Paired (a : Analysis) (w : Workspace) (p : Platform)
    (reduction : NodeRef → List Scalar → Scalar) (symbol : String → DType → Scalar)
    (value logical : Values) : Prop where
  executes : (w.machine reduction symbol).Executes w logical a.nodes
  inputs : ∀ n ∈ a.nodes, ∀ declared, (w.node n).op = .placeholder declared →
    ∀ l, Lane.Real (w.node n).axes l → (value n l).equal (logical n l) = true
  /-- Real lanes hold scalars of their element type, within the limits of the platform. -/
  admits : ∀ n ∈ a.nodes, ∀ l, Lane.Real (w.node n).axes l → p.Admits (w.node n).dtype (value n l)
  reduces : ∀ n ∈ a.nodes, ∀ fn axes keep x, (w.node n).op = .reduce fn axes keep →
    (w.node n).operands = [.node x] → p.Reduces fn (w.node x).dtype (reduction n)
  /-- Where real data is divided by zero, it is the same zero: the sign of zeros is not
  determined. -/
  divisors : ∀ n ∈ a.nodes, (w.node n).op.kind.divides = true →
    ∀ x, (w.node n).operands.getLast? = some (.node x) → ∀ l, Lane.Real (w.node n).axes l →
    ∀ m, m = Lane.source (w.node x).axes (w.node n).axes l → (logical x m).isZero = true →
    value x m = logical x m

/-- All real lanes of the tensor hold the same with and without padding. -/
def Isolates (w : Workspace) (value logical : Values) (x : NodeRef) : Prop :=
  ∀ l, Lane.Real (w.node x).axes l → (value x l).equal (logical x l) = true

namespace Executed

variable {a : Analysis} {w : Workspace} {engine : Engine} {roots : List NodeRef}
  {reduction : NodeRef → List Scalar → Scalar} {symbol : String → DType → Scalar}
    {value logical : Values}
  {n x : NodeRef} {l : Lane}

/-- Real lanes are read from the same real lanes, with padding and without. -/
theorem argument_node (h : a.Executed w engine roots reduction symbol value) (logical : Values)
    (hn : n ∈ a.nodes) (hpoint : (w.node n).op.isPointwise = true) (hx : x ∈ (w.node n).inputs)
    (hl : Lane.Real (w.node n).axes l) :
    Lane.Real (w.node x).axes (Lane.source (w.node x).axes (w.node n).axes l) ∧
      (a.machine w reduction symbol).argument value n l (.node x) =
        value x (Lane.source (w.node x).axes (w.node n).axes l) ∧
      (w.machine reduction symbol).argument logical n l (.node x) =
        logical x (Lane.source (w.node x).axes (w.node n).axes l) := by
  have hformed := h.wellFormed n (h.lists.has n hn).2
  have hvalid := (h.wellFormed x (h.lists.has x (h.lists.inputs n hn x hx)).2).valid
  have hreal := (hformed.reads hpoint x hx).real_source hformed.valid hvalid hl
  refine ⟨hreal, if_pos hreal, ?_⟩
  rw [← Lane.source_logicalShape hl] at hreal ⊢
  exact if_pos (Lane.real_logicalShape.2 hreal)

/-- What a pointwise node finds in its operand at a position, in one of its real lanes. -/
theorem argument?_equal (h : a.Executed w engine roots reduction symbol value) (hn : n ∈ a.nodes)
    (hpoint : (w.node n).op.isPointwise = true)
    (hinputs : ∀ x ∈ (w.node n).inputs, Isolates w value logical x)
    (hl : Lane.Real (w.node n).axes l) {i : Nat} {s t : Scalar}
    (hs : (a.machine w reduction symbol).argument? w value n l i = some s)
    (ht : (w.machine reduction symbol).argument? w logical n l i = some t) :
    s.equal t = true ∧ (s = t ∨ ∃ x m, (w.node n).operands[i]? = some (.node x) ∧
      m = Lane.source (w.node x).axes (w.node n).axes l ∧ s = value x m ∧ t = logical x m) := by
  obtain ⟨o, ho, rfl⟩ := Option.map_eq_some_iff.1 hs
  obtain rfl : (w.machine reduction symbol).argument logical n l o = t := by
    simpa [Machine.argument?, ho] using ht
  cases o with
  | scalar v => exact ⟨Scalar.equal_refl v, .inl rfl⟩
  | symbol name d => exact ⟨Scalar.equal_refl (symbol name d), .inl rfl⟩
  | node x =>
    have hx : x ∈ (w.node n).inputs := List.mem_filterMap.2 ⟨_, List.mem_of_getElem? ho, rfl⟩
    obtain ⟨hreal, hpadded, hlogical⟩ := h.argument_node logical hn hpoint hx hl
    rw [hpadded, hlogical]
    exact ⟨hinputs x hx _ hreal, .inr ⟨x, _, ho, rfl, rfl, rfl⟩⟩

theorem isolates_of_pointwise (h : a.Executed w engine roots reduction symbol value)
    (hpaired : a.Paired w engine.platform reduction symbol value logical) (hn : n ∈ a.nodes)
    (hpoint : (w.node n).op.isPointwise = true)
    (hinputs : ∀ x ∈ (w.node n).inputs, Isolates w value logical x) :
    Isolates w value logical n := by
  intro l hl
  have hformed := h.wellFormed n (h.lists.has n hn).2
  have hvalue := h.admissible.executes n hn l (Lane.Real.stored hl hformed.valid)
  have hlogical := hpaired.executes n hn l (Lane.stored_logicalShape.2 hl)
  refine hvalue.equal hlogical hpoint hformed.arity ?_ ?_
  · exact fun i s t hs ht => (h.argument?_equal hn hpoint hinputs hl hs ht).1
  · intro hdiv i s t hlength hs ht
    obtain ⟨hequal, rfl | ⟨x, k, hx, hk, rfl, rfl⟩⟩ := h.argument?_equal hn hpoint hinputs hl hs ht
    · exact .inr rfl
    · rw [Scalar.isZero_eq_of_equal hequal]
      have hlast : (w.node n).operands.getLast? = some (.node x) := by
        rw [List.getLast?_eq_getElem?, hlength]
        exact hx
      cases hzero : (logical x k).isZero with
      | false => exact .inl rfl
      | true => exact .inr (hpaired.divisors n hn hdiv x hlast l hl k hk hzero)

/-- **Padding lanes can be left out of a reduction**: only the real lanes count. -/
theorem reduction_equal (h : a.Executed w engine roots reduction symbol value)
    (hpaired : a.Paired w engine.platform reduction symbol value logical) (hn : n ∈ a.nodes)
    {fn : ReduceFn} {axes : List Nat} {keep : Bool} (hop : (w.node n).op = .reduce fn axes keep)
    (hx : (w.node n).operands = [.node x]) (hl : Lane.Real (w.node n).axes l) :
    (reduction n ((a.machine w reduction symbol).combined value n x axes keep l)).equal
      (reduction n ((Lane.into (logicalShape (w.node x).axes) axes keep l).map (value x))) =
        true := by
  have hnode := h.lists.inputs n hn x (by simp [Node.inputs, hx, Operand.node?])
  obtain ⟨hgraph, hhas⟩ := h.lists.has x hnode
  have hvalid := (h.wellFormed x hhas).valid
  have hstored := Lane.Real.stored hl (h.wellFormed n (h.lists.has n hn).2).valid
  rw [h.axes_reduce hn hop hx] at hl hstored
  have hseen : ∀ m, Lane.Real (w.node x).axes m →
      (a.machine w reduction symbol).seen value n x m = value x m := fun m hm => if_pos hm
  have hkept : ((Lane.into (w.node x).axes axes keep l).filter fun m =>
      Lane.Real (w.node x).axes m).map ((a.machine w reduction symbol).seen value n x) =
        (Lane.into (logicalShape (w.node x).axes) axes keep l).map (value x) := by
    rw [← Lane.filter_real_into hvalid]
    exact List.map_congr_left fun m hm => hseen m (by simpa using (List.mem_filter.1 hm).2)
  rw [← hkept]
  cases hpadded : ((w.node x).paddedAxes.filter (· ∈ axes)).isEmpty with
  | true =>
    rw [List.filter_eq_self.2 fun m hm => decide_eq_true (Node.real_of_mem_into hpadded hl hm)]
    exact Scalar.equal_refl _
  | false =>
    obtain ⟨e, q, he, hread, hexact⟩ :=
      (h.outcome.settled n hn).neutral fn axes keep x hop hx hpadded
    obtain ⟨u, hu, hequal⟩ := PaddingValue.exists_of_isExact hexact
    refine (hpaired.reduces n hn fn axes keep x hop hx).filter he ?_ ?_ ?_
    · intro m hm hreal
      rw [hseen m (of_decide_eq_true hreal)]
      exact hpaired.admits x hnode m (of_decide_eq_true hreal)
    · intro m hm hreal
      exact Scalar.equal_trans
        (Admissible.seen_equal hgraph (h.forall_holdsExactly x hnode) hread hu
        ⟨(Lane.mem_into.1 hm).1, of_decide_eq_false hreal⟩) hequal
    · obtain ⟨m, hm, hafter, hreal⟩ := Lane.exists_afterReduce hvalid hstored
      exact List.ne_nil_of_mem
        (List.mem_filter.2 ⟨Lane.mem_into.2 ⟨hm, hafter⟩, decide_eq_true (hreal hl)⟩)

theorem isolates_of_reduce (h : a.Executed w engine roots reduction symbol value)
    (hpaired : a.Paired w engine.platform reduction symbol value logical) (hn : n ∈ a.nodes)
    {fn : ReduceFn} {axes : List Nat} {keep : Bool} (hop : (w.node n).op = .reduce fn axes keep)
    (hinputs : ∀ x ∈ (w.node n).inputs, Isolates w value logical x) :
    Isolates w value logical n := by
  intro l hl
  have hformed := h.wellFormed n (h.lists.has n hn).2
  obtain ⟨x, hx, -⟩ := hformed.reduces fn axes keep hop
  have hinput : x ∈ (w.node n).inputs := by simp [Node.inputs, hx, Operand.node?]
  have hvalue := h.admissible.executes n hn l (Lane.Real.stored hl hformed.valid)
  have hlogical := hpaired.executes n hn l (Lane.stored_logicalShape.2 hl)
  simp only [Machine.Computes, hop, hx, List.getElem?_cons_zero, Option.bind_some, Operand.node?,
    Option.mem_some_iff, exists_eq_left'] at hvalue hlogical
  rw [hvalue, hlogical]
  refine Scalar.equal_trans (h.reduction_equal hpaired hn hop hx hl) ?_
  have hreal : ∀ m ∈ Lane.into (logicalShape (w.node x).axes) axes keep l,
      Lane.Real (w.node x).axes m :=
    fun m hm => Lane.stored_logicalShape.1 (Lane.mem_into.1 hm).1
  refine (hpaired.reduces n hn fn axes keep x hop hx).congr _ _ ?_ ?_
  · intro s hs
    obtain ⟨m, hm, rfl⟩ := List.mem_map.1 hs
    exact hpaired.admits x (h.lists.inputs n hn x hinput) m (hreal m hm)
  · rw [Machine.combined, List.forall₂_map_left_iff, List.forall₂_map_right_iff]
    refine List.forall₂_same.2 fun m hm => ?_
    have hseen : (w.machine reduction symbol).seen logical n x m = logical x m :=
      if_pos (Lane.real_logicalShape.2 (hreal m hm))
    rw [hseen]
    exact hinputs x hinput m (hreal m hm)

/-- **Real lanes of one node** are those of the execution without padding if those of its operands
are. -/
theorem isolates (h : a.Executed w engine roots reduction symbol value)
    (hpaired : a.Paired w engine.platform reduction symbol value logical) (hn : n ∈ a.nodes)
    (hinputs : ∀ x ∈ (w.node n).inputs, Isolates w value logical x) :
    Isolates w value logical n := by
  cases hop : (w.node n).op with
  | placeholder declared => exact hpaired.inputs n hn declared hop
  | constant v =>
    intro l hl
    have hvalue := h.admissible.executes n hn l
      (Lane.Real.stored hl (h.wellFormed n (h.lists.has n hn).2).valid)
    have hlogical := hpaired.executes n hn l (Lane.stored_logicalShape.2 hl)
    simp only [Machine.Computes, hop] at hvalue hlogical
    rw [hvalue, hlogical]
    exact Scalar.equal_refl v
  | reduce fn axes keep => exact h.isolates_of_reduce hpaired hn hop hinputs
  | invalid | unknown code =>
    -- builders make no such nodes
    have harity := (h.wellFormed n (h.lists.has n hn).2).arity
    simp [hop, Op.kind, OpKind.arity?] at harity
  | _ => exact h.isolates_of_pointwise hpaired hn (by rw [hop]; rfl) hinputs

end Executed
end Analysis

/-- **Padding never reaches real data**: with the fills of an analysis, the real lanes of all nodes
hold what they hold in the execution without padding, if the lanes of sums and products can be
counted. -/
theorem Engine.real_equal_of_analyze {w : Workspace} {engine : Engine} {roots : List NodeRef}
    {a : Analysis} {reduction : NodeRef → List Scalar → Scalar} {symbol : String → DType → Scalar}
    {value logical : Values} (hw : w.Built) (hp : engine.platform.Answers)
    (h : engine.analyze w roots = .ok a) (hcounts : w.CountsLanes a.nodes)
    (hadmissible : a.Admissible w engine.platform reduction symbol value)
    (hpaired : a.Paired w engine.platform reduction symbol value logical) {n : NodeRef}
    (hn : n ∈ a.nodes) {l : Lane} (hl : Lane.Real (w.node n).axes l) :
    (value n l).equal (logical n l) = true := by
  have hexecuted := executed_of_analyze hw hp h hcounts hadmissible
  exact hexecuted.lists.induction hexecuted.wellFormed
    (fun n hn hinputs => hexecuted.isolates hpaired hn hinputs) n hn l hl

/-! ### Maxima -/

theorem Scalar.lt_eq_of_equal {s s' t t' : Scalar} (hs : s.equal s' = true)
    (ht : t.equal t' = true) :
    s.value.lt t.value = s'.value.lt t'.value := by
  obtain ⟨-, hs⟩ := equal_iff.1 hs
  obtain ⟨-, ht⟩ := equal_iff.1 ht
  simp only [Number.Double.lt, hs.isNaN_eq, hs.key_eq, ht.isNaN_eq, ht.key_eq]

/-- The greatest scalar depends on the scalars only up to equality. -/
theorem Scalar.greatest_equal {s s' : Scalar} {xs ys : List Scalar} (hs : s.equal s' = true)
    (h : List.Forall₂ (fun s t => s.equal t = true) xs ys) :
    (greatest (s :: xs)).equal (greatest (s' :: ys)) = true := by
  induction h generalizing s s' with
  | nil => exact hs
  | cons ht _ ih =>
    simp only [greatest, List.foldl_cons, lt_eq_of_equal hs ht] at ih ⊢
    split
    · exact ih ht
    · exact ih hs

/-- **Taking the greatest scalar is a maximum**, whose neutral element is the lowest number. -/
theorem Platform.reduces_greatest {p : Platform} (hp : p.Answers) (d : DType) :
    p.Reduces .max d Scalar.greatest where
  congr xs ys _ h := by
    cases h with
    | nil => exact Scalar.equal_refl _
    | cons hs h => exact Scalar.greatest_equal hs h
  drop e he before s after hs hadmits hne := by
    have hlowest : p.lowest d = .ok e := by
      cases neutral_of_eq_ok he with
      | max h => exact h
    have hdtype := (hp.lowest d e hlowest).1
    obtain ⟨hsd, hse⟩ := Scalar.equal_iff.1 hs
    -- nothing is below the neutral element
    have hbelow : ∀ t ∈ before ++ after,
        t.value.lt s.value = false ∧ (s.value.lt t.value = true ∨ s.equal t = true) := by
      intro t ht
      rcases hadmits t ht with ht | ht
      · obtain ⟨heNaN, htNaN, hle⟩ :=
          Number.Double.le_iff.1 (ht.inRange.lowest_le e (by rw [ht.dtype]; exact hlowest))
        have hsNaN := hse.isNaN_eq.trans heNaN
        have hkey := hse.key_eq
        refine ⟨by simp [Number.Double.lt, hkey, hle], ?_⟩
        by_cases hlt : s.value.key < t.value.key
        · exact .inl (by simp [Number.Double.lt, hsNaN, htNaN, hlt])
        · refine .inr (Scalar.equal_iff.2 ⟨hsd.trans (hdtype.trans ht.dtype.symm), ?_⟩)
          exact Number.Double.agrees_of_key_eq hsNaN htNaN (by omega)
      · have hst := Scalar.equal_trans hs (Scalar.equal_symm ht)
        refine ⟨?_, .inr hst⟩
        rw [Scalar.lt_eq_of_equal (Scalar.equal_symm hst) (Scalar.equal_refl s)]
        simp [Number.Double.lt]
    cases before with
    | nil =>
      cases after with
      | nil => exact absurd rfl hne
      | cons b after =>
        have hrefl : List.Forall₂ (fun s t => s.equal t = true) after after :=
          List.forall₂_same.2 fun t _ => Scalar.equal_refl t
        simp only [List.nil_append, Scalar.greatest, List.foldl_cons]
        split
        · exact Scalar.equal_refl _
        · rename_i hlt
          exact Scalar.greatest_equal ((hbelow b (by simp)).2.resolve_left hlt) hrefl
    | cons b before =>
      have hmem : Scalar.greatest (b :: before) ∈ b :: before := Scalar.greatest_mem (by simp)
      have hkeeps := (hbelow _ (List.mem_append_left _ hmem)).1
      simp only [Scalar.greatest] at hkeeps
      simp only [List.cons_append, Scalar.greatest, List.foldl_append, List.foldl_cons, hkeeps,
        Bool.false_eq_true, if_false]
      exact Scalar.equal_refl _

section

open Values.ColumnMinimum

/-- The padding row holds a negative zero, above the negated elements; the maximum does not see
it. -/
theorem Engine.real_equal_columnMinimum :
    ∃ a, default.analyze .columnMinimum [⟨0, 3⟩] = .ok a ∧
      Workspace.columnMinimum.CountsLanes a.nodes ∧
      a.Admissible .columnMinimum .default (fun _ => Scalar.greatest)
        (fun _ d => ⟨d, .zero⟩) stored ∧
      a.Paired .columnMinimum .default (fun _ => Scalar.greatest)
        (fun _ d => ⟨d, .zero⟩) stored real ∧
      stored ⟨0, 1⟩ [2, 0] = ⟨.float32, Number.Double.zero.neg⟩ ∧
      Lane.Real (Workspace.columnMinimum.node ⟨0, 2⟩).axes [0] ∧
      (stored ⟨0, 2⟩ [0]).equal (real ⟨0, 2⟩ [0]) = true := by
  obtain ⟨a, ha, hnodes, -, hcounts, hadmissible⟩ := exists_analyze_columnMinimum
  have hlists := (outcome_of_analyze Workspace.built_columnMinimum.wellFormed ha).1
  have hpaired : a.Paired .columnMinimum .default (fun _ => Scalar.greatest) (fun _ d => ⟨d, .zero⟩)
      stored real := by
    constructor
    case executes =>
      refine Machine.executes_of_all _ _ _ ?_
      rw [hnodes]
      decide +kernel
    case inputs =>
      intro n hn declared hop l hl
      rw [stored, if_pos hl]
      exact Scalar.equal_refl _
    case admits =>
      have hreal : ∀ n ∈ a.nodes, ∀ l ∈ Lane.all (Workspace.columnMinimum.node n).axes,
          (real n l).dtype = (Workspace.columnMinimum.node n).dtype ∧
          (Workspace.columnMinimum.node n).dtype.round (real n l).value = (real n l).value ∧
          Platform.default.InRange (real n l) := by rw [hnodes]; decide +kernel
      intro n hn l hl
      have hvalid := (Workspace.built_columnMinimum.wellFormed n (hlists.has n hn).2).valid
      rw [stored, if_pos hl]
      obtain ⟨hdtype, hround, hrange⟩ := hreal n hn l (Lane.mem_all.2 (Lane.Real.stored hl hvalid))
      exact ⟨hdtype, hround, hrange⟩
    case reduces =>
      intro n hn fn axes keep x hop hx
      obtain rfl := Workspace.eq_max_of_columnMinimum (hnodes ▸ hn) hop
      exact Platform.reduces_greatest Platform.answers_default _
    case divisors =>
      intro n hn hdivides
      have hnone : ∀ k ∈ [.placeholder, .unary .neg, .reduce .max], OpKind.divides k =
          false := by decide
      rw [hnone _ (Workspace.kinds_columnMinimum n (hnodes ▸ hn))] at hdivides
      exact absurd hdivides (by simp)
  have hl : Lane.Real (Workspace.columnMinimum.node ⟨0, 2⟩).axes [0] := by decide
  exact ⟨a, ha, hcounts, hadmissible, hpaired, by decide, hl,
    real_equal_of_analyze Workspace.built_columnMinimum Platform.answers_default ha hcounts
      hadmissible hpaired (by simp [hnodes]) hl⟩

end

/-! ### Sums -/

/-- A sum looks only at the scalars that are not zero, if there are some. -/
theorem Scalar.total_equal {xs ys : List Scalar} {d : DType}
    (hfilter : xs.filter (fun s => !s.isZero) = ys.filter fun s => !s.isZero) (hxs : xs ≠ [])
    (hys : ys ≠ []) (hdtype : ∀ s ∈ xs, s.dtype = d) (hdtype' : ∀ t ∈ ys, t.dtype = d) :
    (total xs).equal (total ys) = true := by
  cases hzero : xs.filter fun s => !s.isZero with
  | cons s rest =>
    have heq : total xs = total ys := by rw [total, total, ← hfilter, hzero]
    rw [heq]
    exact equal_refl _
  | nil =>
    have hx : ∀ s ∈ xs, s.isZero = true := by simpa using List.filter_eq_nil_iff.1 hzero
    have hy : ∀ s ∈ ys, s.isZero = true := by
      simpa using List.filter_eq_nil_iff.1 (hfilter.symm.trans hzero)
    rw [total_of_isZero hx, total_of_isZero hy]
    cases xs with
    | nil => exact absurd rfl hxs
    | cons s _ =>
      cases ys with
      | nil => exact absurd rfl hys
      | cons t _ =>
        exact equal_iff.2 ⟨(hdtype s (by simp)).trans (hdtype' t (by simp)).symm,
          .inr ⟨hx s (by simp), hy t (by simp)⟩⟩

/-- Equal lists have the same scalars that are not zero. -/
theorem Scalar.filter_eq_of_equal {xs ys : List Scalar}
    (h : List.Forall₂ (fun s t => s.equal t = true) xs ys) :
    xs.filter (fun s => !s.isZero) = ys.filter fun s => !s.isZero := by
  induction h with
  | nil => rfl
  | @cons s t _ _ hst _ ih =>
    have hzero := isZero_eq_of_equal hst
    cases ht : t.isZero with
    | true =>
      rw [List.filter_cons_of_neg (by simp [hzero, ht]), List.filter_cons_of_neg (by simp [ht]), ih]
    | false =>
      rw [List.filter_cons_of_pos (by simp [hzero, ht]), List.filter_cons_of_pos (by simp [ht]), ih,
        eq_of_equal hst ht]

theorem Scalar.dtype_of_equal {xs ys : List Scalar} {d : DType}
    (h : List.Forall₂ (fun s t => s.equal t = true) xs ys) (hxs : ∀ s ∈ xs, s.dtype = d) :
    ∀ t ∈ ys, t.dtype = d := by
  induction h with
  | nil => simp
  | @cons s t _ _ hst _ ih =>
    rw [List.forall_mem_cons] at hxs ⊢
    exact ⟨(equal_iff.1 hst).1.symm.trans hxs.1, ih hxs.2⟩

/-- **Adding scalars is a sum**, whose neutral elements are the zeros. -/
theorem Platform.reduces_total (p : Platform) (d : DType) : p.Reduces .sum d Scalar.total where
  congr xs ys hadmits h := by
    by_cases hxs : xs = []
    · subst hxs
      cases h
      exact Scalar.equal_refl _
    · have hys : ys ≠ [] := by
        rintro rfl
        cases h
        exact hxs rfl
      have hdtype : ∀ s ∈ xs, s.dtype = d := fun s hs => (hadmits s hs).dtype
      exact Scalar.total_equal (Scalar.filter_eq_of_equal h) hxs hys hdtype
        (Scalar.dtype_of_equal h hdtype)
  drop e he before s after hs hadmits hne := by
    obtain ⟨-, rfl⟩ := Scalar.ofDouble_eq_ok (RunError.ofScalar_eq_ok.1 he)
    have hzero : s.isZero = true := by
      rw [Scalar.isZero_eq_of_equal hs, DType.round_zero]
      rfl
    have hdtype : ∀ t ∈ before ++ after, t.dtype = d := fun t ht =>
      (hadmits t ht).elim (·.dtype) fun hequal => (Scalar.equal_iff.1 hequal).1
    refine Scalar.total_equal ?_ (by simp) hne (fun t ht => ?_) hdtype
    · rw [List.filter_append, List.filter_append, List.filter_cons_of_neg (by simp [hzero])]
    · rcases List.mem_append.1 ht with ht | ht
      · exact hdtype t (List.mem_append_left _ ht)
      · rcases List.mem_cons.1 ht with rfl | ht
        · exact (Scalar.equal_iff.1 hs).1
        · exact hdtype t (List.mem_append_right _ ht)

section

open Values.WideSum

/-- The sum of zeros is zero, with as many lanes as there are. -/
theorem Values.WideSum.total_zeros {n x : NodeRef} {axes : List Nat} {keep : Bool} {l : Lane}
    (hop : (Workspace.wideSum.node n).op = .reduce .sum axes keep)
    (hx : (Workspace.wideSum.node n).operands = [.node x])
    (hcombined : 0 < (Lane.into
      (logicalShape (Workspace.wideSum.node x).axes) axes keep l).length) :
    (Workspace.wideSum.machine (fun _ => Scalar.total) fun _ d => ⟨d, .zero⟩).Computes .wideSum
      (fun _ _ => ⟨.float32, .zero⟩) n l := by
  simp only [Machine.Computes, hop, hx, List.getElem?_cons_zero, Option.bind_some, Operand.node?,
    Option.mem_some_iff, exists_eq_left']
  generalize hxs : Machine.combined _ _ n x axes keep l = xs
  have hzero : ∀ s ∈ xs, s = ⟨.float32, .zero⟩ := by
    intro s hs
    rw [← hxs] at hs
    obtain ⟨m, -, rfl⟩ := List.mem_map.1 hs
    exact ite_self _
  have hlength : 0 < xs.length := by
    rw [← hxs, Machine.combined, List.length_map]
    exact hcombined
  change _ = Scalar.total xs
  rw [Scalar.total_of_isZero fun s hs => by rw [hzero s hs]; rfl]
  cases xs with
  | nil => simp at hlength
  | cons s _ => exact (hzero s (by simp)).symm

/-- Without padding both sums are zero.  With padding the second sum takes in the padding lane of
the first one, since the analysis takes it for zero. -/
theorem Engine.wideSum_takes_padding :
    ∃ a logical, default.analyze .wideSum [⟨0, 2⟩] = .ok a ∧
      a.Admissible .wideSum .default (fun _ => Scalar.total) (fun _ d => ⟨d, .zero⟩) stored ∧
      a.Paired .wideSum .default (fun _ => Scalar.total) (fun _ d => ⟨d, .zero⟩) stored logical ∧
      Lane.Real (Workspace.wideSum.node ⟨0, 2⟩).axes [] ∧
      (stored ⟨0, 2⟩ []).equal (logical ⟨0, 2⟩ []) = false := by
  obtain ⟨a, ha, hnodes, -, hadmissible⟩ := exists_analyze_wideSum
  obtain ⟨hop0, ⟨hop1, hx1⟩, hop2, hx2⟩ := Workspace.ops_wideSum
  have hpaired : a.Paired .wideSum .default (fun _ => Scalar.total) (fun _ d => ⟨d, .zero⟩) stored
      fun _ _ => ⟨.float32, .zero⟩ := by
    constructor
    case executes =>
      intro n hn l hl
      have hstored : Lane.Stored (logicalShape (Workspace.wideSum.node n).axes) l := hl
      simp only [hnodes, List.mem_cons, List.not_mem_nil, or_false] at hn
      rcases hn with rfl | rfl | rfl
      · simp only [Machine.Computes, hop0]
      · refine total_zeros hop1 hx1 ?_
        have hshape : logicalShape (Workspace.wideSum.node ⟨0, 1⟩).axes =
            afterReduce [0, 1] false .unit 0
              (logicalShape (Workspace.wideSum.node ⟨0, 0⟩).axes) := by
          decide
        rw [Lane.length_into (hshape ▸ hstored)]
        decide
      · refine total_zeros hop2 hx2 ?_
        have hshape : logicalShape (Workspace.wideSum.node ⟨0, 2⟩).axes =
            afterReduce [0] false .unit 0 (logicalShape (Workspace.wideSum.node ⟨0, 1⟩).axes) := by
          decide
        rw [Lane.length_into (hshape ▸ hstored)]
        decide
    case inputs =>
      intro n hn declared hop l hl
      simp only [hnodes, List.mem_cons, List.not_mem_nil, or_false] at hn
      rcases hn with rfl | rfl | rfl
      · rw [stored, if_pos hl]
        decide
      · simp [hop1] at hop
      · simp [hop2] at hop
    case admits =>
      have hreal : ∀ n ∈ a.nodes, (real n).dtype = (Workspace.wideSum.node n).dtype ∧
          (Workspace.wideSum.node n).dtype.round (real n).value = (real n).value ∧
          Platform.default.InRange (real n) := by rw [hnodes]; decide +kernel
      intro n hn l hl
      rw [stored, if_pos hl]
      obtain ⟨hdtype, hround, hrange⟩ := hreal n hn
      exact ⟨hdtype, hround, hrange⟩
    case reduces =>
      intro n hn fn axes keep x hop hx
      obtain ⟨rfl, -⟩ := Workspace.eq_sum_of_wideSum (hnodes ▸ hn) hop hx
      exact Platform.reduces_total _ _
    case divisors =>
      have hnone : ∀ n ∈ a.nodes, (Workspace.wideSum.node n).op.kind.divides = false := by
        rw [hnodes]; decide
      exact fun n hn hdivides => absurd hdivides (by simp [hnone n hn])
  exact ⟨a, _, ha, hadmissible, hpaired, by decide +kernel, by decide +kernel⟩

end
end LanePadding
