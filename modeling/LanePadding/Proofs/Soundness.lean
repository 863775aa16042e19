import LanePadding.Proofs.Execution

/-!
# Exact padding values are sound

An analysis that calls the padding value of a tensor exact promises one scalar in all padding lanes
of the tensor.  The main result is `Engine.equal_of_padding_exact`: every execution of the graph
keeps the promise, for all nodes that the roots depend on.

The proof goes along the graph.  One node keeps the promise if its operands do
(`Analysis.Executed.holdsExactly`): its padding value solves the equation of the node
(`Run.Settled.holds`), what it sees in its operands describes what it finds there
(`Analysis.Admissible.found`), and the rule of each operator is sound.  Two operators need more than
that.  A divisor that is known up to equality may be a zero of either sign, and it is the safety of
divisors that rules this out (`Analysis.Executed.divisor`).  A reduction over padding lanes holds
the neutral element, since this is what it reads there (`Run.Settled.neutral`).
-/

set_option autoImplicit false

namespace LanePadding

open Number

/-- A value that may be divided by is not zero. -/
theorem FaultRule.isZero_of_safe {rule : FaultRule} {v : Double} (h : rule.safe v = true)
    (hrule : rule ≠ .nonNegative) : v.isZero = false := by
  rw [Bool.eq_false_iff]
  intro hzero
  obtain ⟨s, rfl⟩ := Double.isZero_iff.1 hzero
  cases rule with
  | positive =>
    have hkey : Double.zero.key = 0 := Double.key_signedZero false
    simp [safe, Double.lt, hkey] at h
  | nonZero => simp [safe] at h
  | nonNegative => exact hrule rfl

/-- **What a selection holds** is what is selected, whichever branches are described. -/
theorem selectContent_sound {k : Content} {onTrue onFalse : Option PaddingValue} {v : Scalar}
    (h : selectContent k onTrue onFalse = some (.exact v)) {p : Platform} {taken : Bool}
    {t f : Scalar} (hk : ∀ u, k = .exact u → u.isZero = !taken)
    (ht : ∀ q, onTrue = some q → q.Describes p t) (hf : ∀ q, onFalse = some q → q.Describes p f) :
    (if taken then t else f).equal v = true := by
  have hboth : ∀ qt qf, onTrue = some qt → onFalse = some qf → qt.sameValue qf = true →
      qt.content = .exact v → (if taken then t else f).equal v = true := by
    intro qt qf hqt hqf hsame hv
    rw [PaddingValue.sameValue, hv] at hsame
    split at hsame
    · rename_i u u' hu hu'
      obtain rfl := Content.exact.inj hu
      split
      · exact (ht qt hqt).equal hv
      · exact Scalar.equal_trans ((hf qf hqf).equal hu') (Scalar.equal_symm hsame)
    · simp at *
    · simp at hsame
  cases k with
  | exact u =>
    simp only [selectContent] at h
    obtain ⟨q, hq, hv⟩ := Option.map_eq_some_iff.1 h
    have hu : u.value.isZero = !taken := hk u rfl
    cases taken with
    | true => exact (ht q (by simpa [hu] using hq)).equal hv
    | false => exact (hf q (by simpa [hu] using hq)).equal hv
  | _ =>
    simp only [selectContent] at h
    obtain ⟨qt, hqt, h⟩ := Option.bind_eq_some_iff.1 h
    obtain ⟨qf, hqf, h⟩ := Option.bind_eq_some_iff.1 h
    by_cases hsame : qt.sameValue qf = true
    · rw [if_pos hsame] at h
      exact hboth qt qf hqt hqf hsame (Option.some.inj h)
    · rw [if_neg hsame] at h
      split at h <;> simp at h

/-! ## One node -/

namespace Analysis

/-- An execution with padding of an analysed graph. -/
structure Executed (a : Analysis) (w : Workspace) (engine : Engine) (roots : List NodeRef)
    (reduction : NodeRef → List Scalar → Scalar) (symbol : String → DType → Scalar)
    (value : Values) :
    Prop where
  wellFormed : w.WellFormed
  lists : w.Lists a.graph roots a.nodes
  outcome : a.run.Outcome w engine a.graph a.nodes (distinct roots)
  answers : engine.platform.Answers
  counts : w.CountsLanes a.nodes
  admissible : a.Admissible w engine.platform reduction symbol value

namespace Executed

variable {a : Analysis} {w : Workspace} {engine : Engine} {roots : List NodeRef}
  {reduction : NodeRef → List Scalar → Scalar} {symbol : String → DType → Scalar} {value : Values}
  {n x : NodeRef} {l : Lane} {v : Scalar}

theorem padding?_eq (h : a.Executed w engine roots reduction symbol value) (hn : n ∈ a.nodes) :
    a.padding? n = (a.run.entry n).padding := if_pos (h.lists.has n hn).1

/-- The padding value of a node solves the equation of the node. -/
theorem infer_eq (h : a.Executed w engine roots reduction symbol value) (hn : n ∈ a.nodes)
    {q : PaddingValue} (hq : a.padding? n = some q) :
    q.origin = some n ∧ a.run.infer w engine n = some q.content := by
  obtain ⟨p, hp, horigin, hinfer⟩ := (h.outcome.settled n hn).holds
  rw [h.padding?_eq hn, hp] at hq
  obtain rfl := Option.some.inj hq
  exact ⟨horigin, hinfer⟩

/-- A reduction has the axes that it leaves of its operand's. -/
theorem axes_reduce (h : a.Executed w engine roots reduction symbol value) (hn : n ∈ a.nodes)
    {fn : ReduceFn} {axes : List Nat} {keep : Bool} (hop : (w.node n).op = .reduce fn axes keep)
    (hx : (w.node n).operands = [.node x]) :
    (w.node n).axes = afterReduce axes keep .unit 0 (w.node x).axes := by
  obtain ⟨x', hx', -, hshape⟩ := (h.wellFormed n (h.lists.has n hn).2).reduces fn axes keep hop
  obtain rfl : x = x' := by simpa using hx.symm.trans hx'
  rw [hshape, Build.axesAfterReduce_eq]

/-- What a pointwise node finds in the operand at a position, in one of its padding lanes. -/
theorem found_at (h : a.Executed w engine roots reduction symbol value) (hn : n ∈ a.nodes)
    (hpoint : (w.node n).op.isPointwise = true)
    (hholds : ∀ x ∈ (w.node n).inputs, a.HoldsExactly w value x)
    (hl : Lane.Padding (w.node n).axes l) {i : Nat} {q : PaddingValue} {s : Scalar}
    (hsees : a.run.seesAt w n i = some q)
    (harg : (a.machine w reduction symbol).argument? w value n l i = some s) :
    ∃ o, (w.node n).operands[i]? = some o ∧
      s = (a.machine w reduction symbol).argument value n l o ∧
      Admissible.Found a w engine.platform n o q s := by
  obtain ⟨o, ho, hsees⟩ := Option.bind_eq_some_iff.1 hsees
  rw [Machine.argument?, ho, Option.map_some, Option.some.injEq] at harg
  subst s
  refine ⟨o, ho, rfl, h.admissible.found h.wellFormed h.lists hn hpoint hholds ?_ hl
    (List.mem_of_getElem? ho) hsees⟩
  exact fun x hx q hq => (h.infer_eq (h.lists.inputs n hn x hx) hq).1

/-- **A divisor that is known is not zero**, unless it is the very scalar that is known. -/
theorem divisor (h : a.Executed w engine roots reduction symbol value)
    (hn : n ∈ a.nodes) {o : Operand} (ho : o ∈ (w.node n).operands) {q : PaddingValue} {s : Scalar}
    (hfound : Admissible.Found a w engine.platform n o q s) (hq : q.content = .exact v)
    (hrule : ∀ x, o = .node x →
      ∃ rule, FaultRule.of? (w.node n) x = some rule ∧ rule ≠ .nonNegative) :
    s.isZero = false ∨ s = v := by
  rcases hfound.known v hq with rfl | ⟨x, q', rfl, hown, hread, hq'⟩
  · exact .inr rfl
  · -- the operand is made safe for the node, which reads its padding lanes
    obtain ⟨rule, hof, hne⟩ := hrule x rfl
    have hinput : x ∈ (w.node n).inputs := List.mem_filterMap.2 ⟨_, ho, rfl⟩
    have hx := h.lists.inputs n hn x hinput
    obtain ⟨hgraph, hhas⟩ := h.lists.has x hx
    have hconsumer : n ∈ (a.run.entry x).consumers := by
      rw [h.outcome.consumers x hgraph hhas]
      exact List.mem_filter.2 ⟨hn, by simpa using hinput⟩
    have happly : FaultRule.applying? w x n = some rule := by
      rw [FaultRule.applying?, if_pos hown, hof]
    obtain ⟨p, u, hread', hp, hsafe⟩ := (h.outcome.settled x hx).safe n hconsumer rule happly
    obtain rfl : q' = p := Option.some.inj (hread.symm.trans hread')
    obtain rfl : v = u := Content.exact.inj (hq'.symm.trans hp)
    left
    rw [Scalar.isZero_eq_of_equal (hfound.describes.equal hq)]
    exact FaultRule.isZero_of_safe hsafe hne

/-! ### One operator after the other -/

section

variable (h : a.Executed w engine roots reduction symbol value) (hn : n ∈ a.nodes)
  (hholds : ∀ x ∈ (w.node n).inputs, a.HoldsExactly w value x) (hl : Lane.Padding (w.node n).axes l)
include h hn hholds hl

theorem equal_of_unaryPadding {op : OpKind} (hpoint : (w.node n).op.isPointwise = true)
    (hrule : op.divides = true → ∀ x,
      ∃ rule, FaultRule.of? (w.node n) x = some rule ∧ rule ≠ .nonNegative)
    (hpadding : ((a.run.seesAt w n 0).bind fun p =>
      (p.unaryPadding op (w.node n).dtype).toOption.map PaddingValue.content) = some (.exact v))
    (hvalue : ∃ s ∈ (a.machine w reduction symbol).argument? w value n l 0,
      Scalar.evalUnary op s (w.node n).dtype = .ok (value n l)) : (value n l).equal v = true := by
  obtain ⟨s, harg, heval⟩ := hvalue
  obtain ⟨q, hsees, hmap⟩ := Option.bind_eq_some_iff.1 hpadding
  obtain ⟨r, hr, hv⟩ := Option.map_eq_some_iff.1 hmap
  obtain ⟨o, ho, -, hfound⟩ := h.found_at hn hpoint hholds hl hsees harg
  refine PaddingValue.unaryPadding_sound (eq_ok_of_toOption hr) hv hfound.describes ?_ heval
  exact fun hdivides u hu => h.divisor hn (List.mem_of_getElem? ho) hfound hu fun x _ =>
    hrule hdivides x

theorem equal_of_binaryPadding {fn : BinaryFn} (hop : (w.node n).op = .binary fn)
    (hpadding : ((a.run.seesAt w n 0).bind fun p => (a.run.seesAt w n 1).bind fun q =>
      (engine.platform.binaryPadding (.binary fn) p q).toOption.map PaddingValue.content) =
        some (.exact v))
    (hvalue : ∃ s ∈ (a.machine w reduction symbol).argument? w value n l 0,
      ∃ t ∈ (a.machine w reduction symbol).argument? w value n l 1,
      Scalar.evalBinary (.binary fn) s t = .ok (value n l)) : (value n l).equal v = true := by
  obtain ⟨s, hs, t, ht, heval⟩ := hvalue
  obtain ⟨p, hp, hbind⟩ := Option.bind_eq_some_iff.1 hpadding
  obtain ⟨q, hq, hmap⟩ := Option.bind_eq_some_iff.1 hbind
  obtain ⟨r, hr, hv⟩ := Option.map_eq_some_iff.1 hmap
  have hpoint : (w.node n).op.isPointwise = true := by rw [hop]; rfl
  obtain ⟨_, -, -, hleft⟩ := h.found_at hn hpoint hholds hl hp hs
  obtain ⟨o, ho, -, hright⟩ := h.found_at hn hpoint hholds hl hq ht
  refine engine.platform.binaryPadding_sound h.answers (eq_ok_of_toOption hr) hv hleft.describes
    hright.describes ?_ heval
  intro hdivides u hu
  obtain rfl : fn = .div := by cases fn <;> simp_all [OpKind.divides]
  refine h.divisor hn (List.mem_of_getElem? ho) hright hu ?_
  rintro x rfl
  exact ⟨.nonZero, by simp [FaultRule.of?, hop, ho], by simp⟩

/-- A comparison of the first two operands answers what the analysis says, if it says it exactly. -/
theorem eq_of_compared {mode : CompareMode} (hpoint : (w.node n).op.isPointwise = true)
    {q : PaddingValue} {s t : Scalar} {k : Bool}
    (hcompared : a.run.compared w engine n mode = some q) (hq : q.content = .exact v)
    (hs : (a.machine w reduction symbol).argument? w value n l 0 = some s)
    (ht : (a.machine w reduction symbol).argument? w value n l 1 = some t)
    (heval : Scalar.evalCompare mode s t = .ok k) : v = .ofBool k := by
  obtain ⟨left, hleft, hbind⟩ := Option.bind_eq_some_iff.1 hcompared
  obtain ⟨right, hright, hcompare⟩ := Option.bind_eq_some_iff.1 hbind
  obtain ⟨o, -, hso, hs'⟩ := h.found_at hn hpoint hholds hl hleft hs
  obtain ⟨o', -, hto', ht'⟩ := h.found_at hn hpoint hholds hl hright ht
  refine engine.platform.comparePadding_sound
    (eq_ok_of_toOption hcompare) hq hs'.describes ht'.describes ?_ heval
  -- unconstrained lanes of one origin are the same lanes of the same operand
  intro y hcontent hcontent' hy hy'
  obtain ⟨rfl, hnan⟩ := hs'.own hcontent y hy
  obtain ⟨rfl, -⟩ := ht'.own hcontent' y hy'
  exact ⟨hso.trans hto'.symm, hnan⟩

/-- What a selection between the operands at two positions takes. -/
theorem equal_of_selectContent (hpoint : (w.node n).op.isPointwise = true) {k : Content}
    {taken : Bool} {i j : Nat} {t f : Scalar} (hk : ∀ u, k = .exact u → u.isZero = !taken)
    (hselect : selectContent k (a.run.seesAt w n i) (a.run.seesAt w n j) = some (.exact v))
    (ht : (a.machine w reduction symbol).argument? w value n l i = some t)
    (hf : (a.machine w reduction symbol).argument? w value n l j = some f) :
    (if taken then t else f).equal v = true := by
  refine selectContent_sound (p := engine.platform) hselect hk ?_ ?_
  · intro q hq
    obtain ⟨_, -, -, hfound⟩ := h.found_at hn hpoint hholds hl hq ht
    exact hfound.describes
  · intro q hq
    obtain ⟨_, -, -, hfound⟩ := h.found_at hn hpoint hholds hl hq hf
    exact hfound.describes

theorem equal_of_select (hop : (w.node n).op = .select)
    (hpadding : ((a.run.condition? w engine n).bind fun k =>
      selectContent k (a.run.seesAt w n 1) (a.run.seesAt w n 2)) = some (.exact v))
    (hvalue : ∃ k ∈ (a.machine w reduction symbol).argument? w value n l 0,
      ∃ t ∈ (a.machine w reduction symbol).argument? w value n l 1,
      ∃ f ∈ (a.machine w reduction symbol).argument? w value n l 2,
      value n l = if k.value.isZero then f else t) : (value n l).equal v = true := by
  obtain ⟨k, hk, t, ht, f, hf, hvalue⟩ := hvalue
  obtain ⟨c, hc, hselect⟩ := Option.bind_eq_some_iff.1 hpadding
  have hpoint : (w.node n).op.isPointwise = true := by rw [hop]; rfl
  have hcond : ∀ u, c = .exact u → u.isZero = !(!k.isZero) := by
    rintro u rfl
    simp only [Run.condition?, hop] at hc
    obtain ⟨p, hp, hcontent⟩ := Option.map_eq_some_iff.1 hc
    obtain ⟨_, -, -, hfound⟩ := h.found_at hn hpoint hholds hl hp hk
    rw [Bool.not_not, Scalar.isZero_eq_of_equal (hfound.describes.equal hcontent)]
  have hequal := h.equal_of_selectContent hn hholds hl hpoint hcond hselect ht hf
  rw [hvalue]
  cases hzero : k.value.isZero <;> simpa [Scalar.isZero, hzero] using hequal

theorem equal_of_cmpSel {mode : CompareMode} (hop : (w.node n).op = .cmpSel mode)
    (hpadding : ((a.run.condition? w engine n).bind fun k =>
      selectContent k (a.run.seesAt w n 2) (a.run.seesAt w n 3)) = some (.exact v))
    (hvalue : ∃ s ∈ (a.machine w reduction symbol).argument? w value n l 0,
      ∃ s' ∈ (a.machine w reduction symbol).argument? w value n l 1,
      ∃ t ∈ (a.machine w reduction symbol).argument? w value n l 2,
      ∃ f ∈ (a.machine w reduction symbol).argument? w value n l 3,
      (Scalar.evalCompare mode s s').map (fun k => if k then t else f) = .ok (value n l)) :
    (value n l).equal v = true := by
  obtain ⟨s, hs, s', hs', t, ht, f, hf, hvalue⟩ := hvalue
  obtain ⟨k, heval, hvalue⟩ := exists_of_map_eq_ok hvalue
  obtain ⟨c, hc, hselect⟩ := Option.bind_eq_some_iff.1 hpadding
  have hpoint : (w.node n).op.isPointwise = true := by rw [hop]; rfl
  have hcond : ∀ u, c = .exact u → u.isZero = !k := by
    rintro u rfl
    simp only [Run.condition?, hop] at hc
    obtain ⟨p, hp, hcontent⟩ := Option.map_eq_some_iff.1 hc
    rw [h.eq_of_compared hn hholds hl hpoint hp hcontent hs hs' heval]
    cases k <;> decide +kernel
  rw [← hvalue]
  exact h.equal_of_selectContent hn hholds hl hpoint hcond hselect ht hf

/-- A reduction of one scalar, found in all lanes that are combined. -/
theorem equal_of_repeated {fn : ReduceFn} {axes : List Nat} {keep : Bool}
    (hop : (w.node n).op = .reduce fn axes keep) (hx : (w.node n).operands = [.node x])
    {q : PaddingValue} {u : Scalar} (hread : a.run.read x (some n) = some q)
    (hq : q.isExact u = true)
    (hrepeated : Scalar.evalReduceRepeated (.reduce fn) u
      (Lane.reducedCount axes 0 (w.node x).axes) = .ok v) :
    (reduction n ((a.machine w reduction symbol).combined value n x axes keep l)).equal v =
      true := by
  have hinput : x ∈ (w.node n).inputs := by simp [Node.inputs, hx, Operand.node?]
  have hgraph := (h.lists.has x (h.lists.inputs n hn x hinput)).1
  rw [h.axes_reduce hn hop hx] at hl
  have hlength : ((a.machine w reduction symbol).combined value n x axes keep l).length =
      Lane.reducedCount axes 0 (w.node x).axes := (List.length_map ..).trans (Lane.length_into hl.1)
  refine h.admissible.repeats n hn fn axes keep x hop hx _ u v hlength ?_ ?_
  · intro s hs
    obtain ⟨m, hm, rfl⟩ := List.mem_map.1 hs
    obtain ⟨u', hu', hequal⟩ := PaddingValue.exists_of_isExact hq
    exact Scalar.equal_trans
      (Admissible.seen_equal hgraph (hholds x hinput) hread hu'
        (Lane.padding_of_mem_into hl hm)) hequal
  · rwa [hlength]

theorem equal_of_reduce {fn : ReduceFn} {axes : List Nat} {keep : Bool}
    (hop : (w.node n).op = .reduce fn axes keep) (hinfer : a.run.infer w engine n = some (.exact v))
    (hvalue : ∃ x ∈ (w.node n).operands[0]?.bind Operand.node?,
      value n l = reduction n ((a.machine w reduction symbol).combined value n x axes keep l)) :
    (value n l).equal v = true := by
  obtain ⟨x, hx, haxes, -⟩ := (h.wellFormed n (h.lists.has n hn).2).reduces fn axes keep hop
  obtain ⟨x', hx', hvalue⟩ := hvalue
  obtain rfl : x = x' := by simpa [hx, Operand.node?] using hx'
  have hhas := (h.lists.has x (h.lists.inputs n hn x (by simp [Node.inputs, hx, Operand.node?]))).2
  rw [hvalue]
  simp only [Run.infer, hop, hx, List.getElem?_cons_zero, Option.bind_some, Operand.node?] at hinfer
  split at hinfer
  · -- the reduced axes are not padded
    obtain ⟨q, hread, hmap⟩ := Option.bind_eq_some_iff.1 hinfer
    obtain ⟨r, hr, hv⟩ := Option.map_eq_some_iff.1 hmap
    have hr := eq_ok_of_toOption hr
    rw [Node.reducedLanes_eq (h.wellFormed x hhas).valid haxes, PaddingValue.reducePadding] at hr
    split at hr
    · rename_i u hu
      rw [h.counts.evalReduceRepeated_wrap hn hop hx] at hr
      cases hrepeated : Scalar.evalReduceRepeated (.reduce fn) u
          (Lane.reducedCount axes 0 (w.node x).axes) with
      | error e => simp [hrepeated, RunError.ofScalar, bind, Except.bind] at hr
      | ok v' =>
        rw [hrepeated] at hr
        obtain rfl := Except.ok.inj hr
        obtain rfl := Content.exact.inj hv
        refine h.equal_of_repeated hn hholds hl hop hx hread ?_ hrepeated
        rw [PaddingValue.isExact, hu]
        exact Scalar.equal_refl u
    all_goals
      obtain rfl := Except.ok.inj hr
      simp [PaddingValue.dependent, PaddingValue.unconstrained, PaddingValue.ofContent] at hv
  · -- the padding lanes that are combined hold the neutral element
    rename_i hpadded
    obtain ⟨u, q, hu, hread, hexact⟩ :=
      (h.outcome.settled n hn).neutral fn axes keep x hop hx (by simpa using hpadded)
    obtain ⟨v', hv', hv⟩ := Option.map_eq_some_iff.1 hinfer
    obtain rfl : u = v' := Except.ok.inj (hu.symm.trans (eq_ok_of_toOption hv'))
    obtain rfl := Content.exact.inj hv
    have hfew : fn = .sum → (Lane.reducedCount axes 0 (w.node x).axes : Int).natAbs ≤
        twoPow 64 := by
      intro hsum
      have hcount := h.counts n hn fn axes keep x hop hx (.inl hsum)
      have hend : Text.int64End ≤ (twoPow 64 : Int) := by decide
      omega
    obtain ⟨v', hrepeated, hequal⟩ := engine.platform.evalReduceRepeated_neutral hu hfew
    exact Scalar.equal_trans (h.equal_of_repeated hn hholds hl hop hx hread hexact hrepeated) hequal

end

/-- **One node keeps the promise** if its operands do. -/
theorem holdsExactly (h : a.Executed w engine roots reduction symbol value) (hn : n ∈ a.nodes)
    (hholds : ∀ x ∈ (w.node n).inputs, a.HoldsExactly w value x) : a.HoldsExactly w value n := by
  intro q v hq hv l hl
  have hinfer := (h.infer_eq hn hq).2
  rw [hv] at hinfer
  have hcomputes := h.admissible.executes n hn l hl.1
  have hequation := hinfer
  rw [Machine.Computes] at hcomputes
  rw [Run.infer] at hinfer
  cases hop : (w.node n).op with
  | placeholder declared => exact h.admissible.inputs n hn declared hop q v hq hv l hl
  | constant u =>
    simp only [hop] at hinfer hcomputes
    obtain rfl : u = v := by simpa using hinfer
    rw [hcomputes]
    exact Scalar.equal_refl u
  | unary fn =>
    simp only [hop] at hinfer hcomputes
    refine h.equal_of_unaryPadding hn hholds hl (by rw [hop]; rfl) ?_ hinfer hcomputes
    intro hdivides x
    cases fn <;> simp_all [OpKind.divides, FaultRule.of?, FaultRule.ofUnary?]
  | cast =>
    simp only [hop] at hinfer hcomputes
    exact h.equal_of_unaryPadding hn hholds hl (by rw [hop]; rfl)
      (by simp [OpKind.divides]) hinfer hcomputes
  | binary fn =>
    simp only [hop] at hinfer hcomputes
    exact h.equal_of_binaryPadding hn hholds hl hop hinfer hcomputes
  | broadcast =>
    simp only [hop] at hinfer hcomputes
    obtain ⟨p, hp, hcontent⟩ := Option.map_eq_some_iff.1 hinfer
    obtain ⟨_, -, -, hfound⟩ := h.found_at hn (by rw [hop]; rfl) hholds hl hp hcomputes
    exact hfound.describes.equal hcontent
  | reduce fn axes keep =>
    simp only [hop] at hcomputes
    exact h.equal_of_reduce hn hholds hl hop hequation hcomputes
  | compare mode =>
    simp only [hop] at hinfer hcomputes
    obtain ⟨s, hs, t, ht, hvalue⟩ := hcomputes
    obtain ⟨k, heval, hvalue⟩ := exists_of_map_eq_ok hvalue
    obtain ⟨p, hp, hcontent⟩ := Option.map_eq_some_iff.1 hinfer
    rw [h.eq_of_compared hn hholds hl (by rw [hop]; rfl) hp hcontent hs ht heval, hvalue]
    exact Scalar.equal_refl _
  | select =>
    simp only [hop] at hinfer hcomputes
    exact h.equal_of_select hn hholds hl hop hinfer hcomputes
  | cmpSel mode =>
    simp only [hop] at hinfer hcomputes
    exact h.equal_of_cmpSel hn hholds hl hop hinfer hcomputes
  | invalid => simp [hop] at hinfer
  | unknown code => simp [hop] at hinfer

/-- **All nodes keep the promise.** -/
theorem forall_holdsExactly (h : a.Executed w engine roots reduction symbol value) :
    ∀ n ∈ a.nodes, a.HoldsExactly w value n :=
  h.lists.induction h.wellFormed fun _ hn hinputs => h.holdsExactly hn hinputs

end Executed
end Analysis

/-! ## All nodes -/

namespace Engine

theorem executed_of_analyze {w : Workspace} {engine : Engine} {roots : List NodeRef} {a : Analysis}
    {reduction : NodeRef → List Scalar → Scalar} {symbol : String → DType → Scalar} {value : Values}
    (hw : w.Built) (hp : engine.platform.Answers) (h : engine.analyze w roots = .ok a)
    (hcounts : w.CountsLanes a.nodes)
    (hadmissible : a.Admissible w engine.platform reduction symbol value) :
    a.Executed w engine roots reduction symbol value :=
  have houtcome := outcome_of_analyze hw.wellFormed h
  ⟨hw.wellFormed, houtcome.1, houtcome.2, hp, hcounts, hadmissible⟩

/-- **Exact padding values are sound**: in every execution of an analysed graph, all padding lanes
of a node with an exact padding value hold that scalar, if the lanes of sums and products can be
counted. -/
theorem equal_of_padding_exact {w : Workspace} {engine : Engine} {roots : List NodeRef}
    {a : Analysis} {reduction : NodeRef → List Scalar → Scalar} {symbol : String → DType → Scalar}
    {value : Values} (hw : w.Built) (hp : engine.platform.Answers)
    (h : engine.analyze w roots = .ok a) (hcounts : w.CountsLanes a.nodes)
    (hadmissible : a.Admissible w engine.platform reduction symbol value) {n : NodeRef}
    (hn : n ∈ a.nodes) {q : PaddingValue} {v : Scalar} (hq : a.padding? n = some q)
    (hv : q.content = .exact v) {l : Lane} (hl : Lane.Padding (w.node n).axes l) :
    (value n l).equal v = true :=
  (executed_of_analyze hw hp h hcounts hadmissible).forall_holdsExactly n hn q v hq hv l hl

end Engine

/-- Executions are admissible if all padding values are exact and no operand is a symbol. -/
theorem Analysis.admissible_of_exact {a : Analysis} {w : Workspace} {p : Platform}
    {reduction : NodeRef → List Scalar → Scalar} {symbol : String → DType → Scalar} {value : Values}
    {padding : NodeRef → Scalar}
    (hexecutes : (a.machine w reduction symbol).Executes w value a.nodes)
    (hrepeats : (a.machine w reduction symbol).Repeats w a.nodes)
    (hexact : ∀ n ∈ a.nodes, (a.padding? n).map PaddingValue.content = some (.exact (padding n)))
    (hinputs : ∀ n ∈ a.nodes, ∀ declared, (w.node n).op = .placeholder declared →
      ∀ l, Lane.Padding (w.node n).axes l → value n l = padding n)
    (hreal : ∀ n ∈ a.nodes, ∀ l, Lane.Real (w.node n).axes l → p.InRange (value n l))
    (hoperands : ∀ n ∈ a.nodes, ∀ o ∈ (w.node n).operands, o.node?.isSome) :
    a.Admissible w p reduction symbol value := by
  have hcontent : ∀ n ∈ a.nodes, ∀ q, a.padding? n = some q → q.content = .exact (padding n) := by
    intro n hn q hq
    have := hexact n hn
    rwa [hq, Option.map_some, Option.some.injEq] at this
  constructor
  case executes => exact hexecutes
  case repeats => exact hrepeats
  case inputs =>
    intro n hn declared hop q v hq hv l hl
    obtain rfl : padding n = v := Content.exact.inj ((hcontent n hn q hq).symm.trans hv)
    rw [hinputs n hn declared hop l hl]
    exact Scalar.equal_refl _
  case real => exact hreal
  case dependent =>
    intro n hn q e hq he
    exact absurd ((hcontent n hn q hq).symm.trans he) (by simp)
  case unconstrained =>
    intro n hn q hq hq'
    exact absurd ((hcontent n hn q hq).symm.trans hq') (by simp)
  case symbols => exact fun n hn name d ho => absurd (hoperands n hn _ ho) (by simp [Operand.node?])

/-! ### A minimum over columns with padding -/

/-- The greatest of scalars, the first one if there are several. -/
def Scalar.greatest : List Scalar → Scalar
  | [] => default
  | s :: xs => xs.foldl (fun s t => if s.value.lt t.value then t else s) s

theorem Scalar.greatest_mem {xs : List Scalar} (h : xs ≠ []) : greatest xs ∈ xs := by
  cases xs with
  | nil => exact absurd rfl h
  | cons s xs =>
    clear h
    induction xs generalizing s with
    | nil => exact List.mem_singleton.2 rfl
    | cons t xs ih =>
      simp only [greatest, List.foldl_cons] at ih ⊢
      split
      · exact List.mem_cons_of_mem _ (ih t)
      · exact List.mem_cons.2 ((List.mem_cons.1 (ih s)).imp_right (List.mem_cons_of_mem _))

/-- The greatest of equal scalars is equal to them. -/
theorem Machine.repeats_greatest {m : Machine} {w : Workspace} {nodes : List NodeRef}
    (hreduction : ∀ n, m.reduction n = Scalar.greatest)
    (hmax : ∀ n ∈ nodes, ∀ fn axes keep, (w.node n).op = .reduce fn axes keep → fn = .max)
    (hvalid : ∀ n ∈ nodes, ∀ x ∈ (w.node n).inputs, ∀ b ∈ m.shape x, b.Valid) :
    m.Repeats w nodes := by
  intro n hn fn axes keep x hop hx xs v u hlength hequal hrepeated
  obtain rfl := hmax n hn fn axes keep hop
  obtain rfl : v = u := Except.ok.inj hrepeated
  have hpos := Lane.reducedCount_pos
    (hvalid n hn x (by simp [Node.inputs, hx, Operand.node?])) axes 0
  rw [hreduction]
  exact hequal _ (Scalar.greatest_mem (List.ne_nil_of_length_pos (hlength ▸ hpos)))

/-- The least element of each column, as the negated maximum of negated elements.  The matrix is
stored with a row and a column of padding. -/
def Workspace.columnMinimum : Workspace :=
  (Workspace.empty.addGraph "columns").calls
    [.placeholder 0 "x" .float32 [⟨3, 2⟩, ⟨2, 1⟩], .unary (.unary .neg) ⟨0, 0⟩,
      .reduce (.reduce .max) ⟨0, 1⟩ false [0], .unary (.unary .neg) ⟨0, 2⟩]

theorem Workspace.built_columnMinimum : columnMinimum.Built :=
  (Built.addGraph "columns" .empty).calls (by decide)

theorem Workspace.kinds_columnMinimum : ∀ n ∈ [⟨0, 0⟩, ⟨0, 1⟩, ⟨0, 2⟩, ⟨0, 3⟩],
    (columnMinimum.node n).op.kind ∈ [.placeholder, .unary .neg, .reduce .max] := by decide

/-- All reductions of the graph are maxima. -/
theorem Workspace.eq_max_of_columnMinimum {n : NodeRef} (hn : n ∈ [⟨0, 0⟩, ⟨0, 1⟩, ⟨0, 2⟩, ⟨0, 3⟩])
    {fn : ReduceFn} {axes : List Nat} {keep : Bool}
    (hop : (columnMinimum.node n).op = .reduce fn axes keep) :
    fn = .max := by
  have := kinds_columnMinimum n hn
  rw [hop] at this
  simpa [Op.kind] using this

namespace Values.ColumnMinimum

/-- The real lanes: the column holds one and two. -/
def real : Values := fun n l =>
  ⟨.float32, match n.index, l with
    | 0, [0, 0] => .one
    | 0, _ => .ofInt 2
    | 1, [0, 0] => Double.one.neg
    | 1, _ => .ofInt (-2)
    | 2, _ => Double.one.neg
    | _, _ => .one⟩

/-- The padding lanes, which all hold the same in each tensor. -/
def padding (n : NodeRef) : Scalar :=
  ⟨.float32, match n.index with
    | 0 => .zero
    | 1 => Double.zero.neg
    | 2 => Double.largest .single true
    | _ => Double.largest .single false⟩

def stored : Values := fun n l =>
  if Lane.Real (Workspace.columnMinimum.node n).axes l then real n l else padding n

end Values.ColumnMinimum

section

open Values.ColumnMinimum

theorem Engine.exists_analyze_columnMinimum :
    ∃ a, default.analyze .columnMinimum [⟨0, 3⟩] = .ok a ∧
      a.nodes = [⟨0, 0⟩, ⟨0, 1⟩, ⟨0, 2⟩, ⟨0, 3⟩] ∧
      (∀ n ∈ a.nodes, (a.padding? n).map PaddingValue.content = some (.exact (padding n))) ∧
      Workspace.columnMinimum.CountsLanes a.nodes ∧
      a.Admissible .columnMinimum .default (fun _ => Scalar.greatest)
        (fun _ d => ⟨d, .zero⟩) stored := by
  obtain ⟨a, ha, hnodes, hpadding, hcomputes⟩ :
      ∃ a, default.analyze .columnMinimum [⟨0, 3⟩] = .ok a ∧
        a.nodes = [⟨0, 0⟩, ⟨0, 1⟩, ⟨0, 2⟩, ⟨0, 3⟩] ∧
        (∀ n ∈ a.nodes, (a.padding? n).map PaddingValue.content = some (.exact (padding n))) ∧
        ∀ n ∈ a.nodes, ∀ l ∈ Lane.all (Workspace.columnMinimum.node n).axes,
          (a.machine .columnMinimum (fun _ => Scalar.greatest) fun _ d => ⟨d, .zero⟩).Computes
            .columnMinimum stored n l :=
    Workspace.built_columnMinimum.exists_analyze 0 [⟨0, 0⟩, ⟨0, 1⟩, ⟨0, 2⟩, ⟨0, 3⟩] (by decide)
      (by decide +kernel)
  have hlists := (outcome_of_analyze Workspace.built_columnMinimum.wellFormed ha).1
  have hvalid : ∀ n ∈ a.nodes, ∀ b ∈ (Workspace.columnMinimum.node n).axes, b.Valid :=
    fun n hn => (Workspace.built_columnMinimum.wellFormed n (hlists.has n hn).2).valid
  have hreal : ∀ n ∈ a.nodes, ∀ l ∈ Lane.all (Workspace.columnMinimum.node n).axes,
      Platform.default.InRange (real n l) := by rw [hnodes]; decide +kernel
  refine ⟨a, ha, hnodes, hpadding, ?_, Analysis.admissible_of_exact
    (Machine.executes_of_all _ _ _ hcomputes) ?_ hpadding ?_ ?_ (by rw [hnodes]; decide)⟩
  · intro n hn fn axes keep x hop _ hcounted
    obtain rfl := Workspace.eq_max_of_columnMinimum (hnodes ▸ hn) hop
    simp at hcounted
  · refine Machine.repeats_greatest (fun _ => rfl) ?_ ?_
    · exact fun n hn fn axes keep hop => Workspace.eq_max_of_columnMinimum (hnodes ▸ hn) hop
    · exact fun n hn x hx => hvalid x (hlists.inputs n hn x hx)
  · intro n hn declared hop l hl
    rw [stored, if_neg hl.2]
  · intro n hn l hl
    rw [stored, if_pos hl]
    exact hreal n hn l (Lane.mem_all.2 (Lane.Real.stored hl (hvalid n hn)))

/-- The maximum over lanes of padding is the lowest number, so that the padding of the result is the
highest one. -/
theorem Engine.equal_of_padding_exact_columnMinimum :
    ∃ a q v, default.analyze .columnMinimum [⟨0, 3⟩] = .ok a ∧
      Workspace.columnMinimum.CountsLanes a.nodes ∧
      a.Admissible .columnMinimum .default (fun _ => Scalar.greatest)
        (fun _ d => ⟨d, .zero⟩) stored ∧
      a.padding? ⟨0, 3⟩ = some q ∧ q.content = .exact v ∧
      v = ⟨.float32, Double.largest .single false⟩ ∧
      Lane.Padding (Workspace.columnMinimum.node ⟨0, 3⟩).axes [1] ∧
      (stored ⟨0, 3⟩ [1]).equal v = true := by
  obtain ⟨a, ha, hnodes, hpadding, hcounts, hadmissible⟩ := exists_analyze_columnMinimum
  have hn : ⟨0, 3⟩ ∈ a.nodes := by simp [hnodes]
  obtain ⟨q, hq, hv⟩ := Option.map_eq_some_iff.1 (hpadding _ hn)
  have hl : Lane.Padding (Workspace.columnMinimum.node ⟨0, 3⟩).axes [1] := by decide
  exact ⟨a, q, _, ha, hcounts, hadmissible, hq, hv, rfl, hl,
    equal_of_padding_exact Workspace.built_columnMinimum Platform.answers_default ha hcounts
      hadmissible hn hq hv hl⟩

end

/-! ### A sum of too many lanes

A tensor with `2^64` lanes to be added is counted as one with none. -/

/-- A sum of scalars.  Zeros are left out, copies of one scalar are multiplied, and other scalars
are added one by one. -/
def Scalar.total (xs : List Scalar) : Scalar :=
  match xs.filter fun s => !s.isZero with
  | [] => xs.headD default
  | s :: rest =>
    ⟨s.dtype, s.dtype.round (if ∀ t ∈ rest, t = s then s.value.mul (.ofInt (rest.length + 1 : Nat))
      else rest.foldl (fun x t => x.add t.value) s.value)⟩

theorem Scalar.total_of_isZero {xs : List Scalar} (h : ∀ s ∈ xs, s.isZero = true) :
    total xs = xs.headD default := by
  have hnil : xs.filter (fun s => !s.isZero) = [] :=
    List.filter_eq_nil_iff.2 fun s hs => by simp [h s hs]
  rw [total, hnil]

theorem Scalar.total_of_eq {xs : List Scalar} {v : Scalar} (hne : xs ≠ []) (hv : v.isZero = false)
    (h : ∀ s ∈ xs, s = v) :
    total xs = ⟨v.dtype, v.dtype.round (v.value.mul (.ofInt xs.length))⟩ := by
  have hself : xs.filter (fun s => !s.isZero) = xs :=
    List.filter_eq_self.2 fun s hs => by rw [h s hs, hv]; rfl
  cases xs with
  | nil => exact absurd rfl hne
  | cons s rest =>
    obtain rfl : s = v := h s (by simp)
    rw [total, hself]
    simp only [List.length_cons, if_pos fun t ht => h t (List.mem_cons_of_mem _ ht)]

theorem Scalar.eq_of_equal {s t : Scalar} (h : s.equal t = true) (ht : t.isZero = false) :
    s = t := by
  obtain ⟨hdtype, hvalue⟩ := equal_iff.1 h
  have hvalue : t.value = s.value := hvalue.symm.eq_of_isZero ht
  calc s = ⟨s.dtype, s.value⟩ := rfl
    _ = ⟨t.dtype, t.value⟩ := by rw [hdtype, hvalue]

/-- The sum of equal scalars is their product with their number. -/
theorem Machine.repeats_total {m : Machine} {w : Workspace} {nodes : List NodeRef}
    (hreduction : ∀ n, m.reduction n = Scalar.total)
    (hsum : ∀ n ∈ nodes, ∀ fn axes keep x, (w.node n).op = .reduce fn axes keep →
      (w.node n).operands = [.node x] → fn = .sum ∧ 0 < Lane.reducedCount axes 0 (m.shape x) ∧
        Lane.reducedCount axes 0 (m.shape x) ≤ twoPow 64) : m.Repeats w nodes := by
  intro n hn fn axes keep x hop hx xs v u hlength hequal hrepeated
  obtain ⟨rfl, hpos, hle⟩ := hsum n hn fn axes keep x hop hx
  rw [← hlength] at hpos hle
  obtain ⟨-, rfl⟩ := Scalar.ofDouble_eq_ok hrepeated
  rw [hreduction]
  cases hv : v.isZero with
  | true =>
    have hzero : ∀ s ∈ xs, s.isZero = true :=
      fun s hs => (Scalar.isZero_eq_of_equal (hequal s hs)).trans hv
    rw [Scalar.total_of_isZero hzero]
    cases xs with
    | nil => simp at hpos
    | cons s rest =>
      have hmul : (v.value.mul (.ofInt (s :: rest).length)).isZero = true :=
        Double.isZero_mul_ofInt hv hle
      obtain ⟨hdtype, hagrees⟩ := Scalar.equal_iff.1 (hequal s (by simp))
      refine Scalar.equal_iff.2 ⟨hdtype, ?_⟩
      have hround := v.dtype.round_agrees (x := .zero) (.inr ⟨rfl, hmul⟩)
      rw [DType.round_zero] at hround
      exact Double.Agrees.trans (.inr ⟨hzero s (by simp), rfl⟩) hround
  | false =>
    rw [Scalar.total_of_eq (List.ne_nil_of_length_pos hpos) hv fun s hs => Scalar.eq_of_equal
      (hequal s hs) hv]
    exact Scalar.equal_refl _

/-- Two sums, the first of them over two axes with `2^32` lanes each. -/
def Workspace.wideSum : Workspace :=
  (Workspace.empty.addGraph "wide").calls
    [.placeholderWithPadding 0 "x" (some (.exact ⟨.float32, .one⟩)) .float32
        [⟨4294967296, 4294967296⟩, ⟨4294967296, 4294967296⟩, ⟨2, 1⟩],
      .reduce (.reduce .sum) ⟨0, 0⟩ false [0, 1], .reduce (.reduce .sum) ⟨0, 1⟩ false [0]]

theorem Workspace.built_wideSum : wideSum.Built :=
  (Built.addGraph "wide" .empty).calls (by decide)

theorem Workspace.axes_wideSum : (wideSum.node ⟨0, 1⟩).axes =
    afterReduce [0, 1] false .unit 0 (wideSum.node ⟨0, 0⟩).axes := by decide

theorem Workspace.ops_wideSum :
    (wideSum.node ⟨0, 0⟩).op = .placeholder (some (.exact ⟨.float32, .one⟩)) ∧
    ((wideSum.node ⟨0, 1⟩).op = .reduce .sum [0, 1] false ∧ (wideSum.node ⟨0, 1⟩).operands =
      [.node ⟨0, 0⟩]) ∧
    (wideSum.node ⟨0, 2⟩).op = .reduce .sum [0] false ∧ (wideSum.node ⟨0, 2⟩).operands =
      [.node ⟨0, 1⟩] := by
  decide +kernel

/-- All reductions of the graph are sums, of up to `2^64` lanes. -/
theorem Workspace.eq_sum_of_wideSum {n x : NodeRef} (hn : n ∈ [⟨0, 0⟩, ⟨0, 1⟩, ⟨0, 2⟩])
    {fn : ReduceFn} {axes : List Nat} {keep : Bool}
    (hop : (wideSum.node n).op = .reduce fn axes keep)
    (hx : (wideSum.node n).operands = [.node x]) :
    fn = .sum ∧ 0 < Lane.reducedCount axes 0 (wideSum.node x).axes ∧
      Lane.reducedCount axes 0 (wideSum.node x).axes ≤ twoPow 64 := by
  obtain ⟨hop0, ⟨hop1, hx1⟩, hop2, hx2⟩ := ops_wideSum
  simp only [List.mem_cons, List.not_mem_nil, or_false] at hn
  rcases hn with rfl | rfl | rfl
  · simp [hop0] at hop
  · obtain ⟨rfl, rfl, rfl⟩ := Op.reduce.inj (hop1.symm.trans hop)
    obtain rfl : (⟨0, 0⟩ : NodeRef) = x := by simpa using hx1.symm.trans hx
    decide
  · obtain ⟨rfl, rfl, rfl⟩ := Op.reduce.inj (hop2.symm.trans hop)
    obtain rfl : (⟨0, 1⟩ : NodeRef) = x := by simpa using hx2.symm.trans hx
    decide

namespace Values.WideSum

/-- What real lanes hold. -/
def real (n : NodeRef) : Scalar :=
  ⟨.float32, if n.index = 2 then .ofInt 18446744073709551616 else .zero⟩

/-- What padding lanes hold.  The sum takes in `2^64` lanes of ones. -/
def padding (n : NodeRef) : Scalar :=
  ⟨.float32, if n.index = 0 then .one else .ofInt 18446744073709551616⟩

def stored : Values := fun n l =>
  if Lane.Real (Workspace.wideSum.node n).axes l then real n else padding n

/-- What the analysis says that padding lanes hold. -/
def inferred (n : NodeRef) : Scalar := ⟨.float32, if n.index = 0 then .one else .zero⟩

end Values.WideSum

section

open Values.WideSum

/-- The lanes that the first sum combines are all real or all padding. -/
theorem Values.WideSum.stored_of_mem_into {l m : Lane}
    (hl : Lane.Stored (Workspace.wideSum.node ⟨0, 1⟩).axes l)
    (hm : m ∈ Lane.into (Workspace.wideSum.node ⟨0, 0⟩).axes [0, 1] false l) :
    stored ⟨0, 0⟩ m =
      if Lane.Real (Workspace.wideSum.node ⟨0, 1⟩).axes l then real ⟨0, 0⟩ else padding ⟨0, 0⟩ := by
  rw [Workspace.axes_wideSum] at hl ⊢
  rw [stored]
  by_cases hreal : Lane.Real
    (afterReduce [0, 1] false .unit 0 (Workspace.wideSum.node ⟨0, 0⟩).axes) l
  · rw [if_pos hreal, if_pos (Node.real_of_mem_into (by decide) hreal hm)]
  · rw [if_neg hreal, if_neg (Lane.padding_of_mem_into ⟨hl, hreal⟩ hm).2]

/-- The sum of `2^64` zeros is zero, and that of as many ones is `2^64`. -/
theorem Values.WideSum.total_into {l : Lane}
    (hl : Lane.Stored (Workspace.wideSum.node ⟨0, 1⟩).axes l) :
    Scalar.total ((Lane.into (Workspace.wideSum.node ⟨0, 0⟩).axes [0, 1] false l).map
      (stored ⟨0, 0⟩)) = stored ⟨0, 1⟩ l := by
  have hlength : ((Lane.into (Workspace.wideSum.node ⟨0, 0⟩).axes [0, 1] false l).map
      (stored ⟨0, 0⟩)).length = 18446744073709551616 := by
    rw [List.length_map, Lane.length_into (Workspace.axes_wideSum ▸ hl)]
    decide
  have hall := fun m hm => stored_of_mem_into (m := m) hl hm
  generalize hxs : (Lane.into (Workspace.wideSum.node ⟨0, 0⟩).axes [0, 1] false l).map
    (stored ⟨0, 0⟩) = xs
  rw [hxs] at hlength
  have hne : xs ≠ [] := List.ne_nil_of_length_pos (by omega)
  rw [stored]
  by_cases hreal : Lane.Real (Workspace.wideSum.node ⟨0, 1⟩).axes l
  · simp only [if_pos hreal] at hall ⊢
    have hzero : ∀ s ∈ xs, s = real ⟨0, 0⟩ := by
      rw [← hxs]
      simpa using hall
    rw [Scalar.total_of_isZero fun s hs => by rw [hzero s hs]; decide]
    cases xs with
    | nil => exact absurd rfl hne
    | cons s rest => exact hzero s (by simp)
  · simp only [if_neg hreal] at hall ⊢
    have hone : ∀ s ∈ xs, s = padding ⟨0, 0⟩ := by
      rw [← hxs]
      simpa using hall
    rw [Scalar.total_of_eq hne (by decide +kernel) hone, hlength]
    decide +kernel

/-- Adding up is an execution, if the first sum finds what is stored. -/
theorem Values.WideSum.executes {a : Analysis} (hnodes : a.nodes = [⟨0, 0⟩, ⟨0, 1⟩, ⟨0, 2⟩])
    (hfill : fillFor (a.settings ⟨0, 0⟩) (some ⟨0, 1⟩) = none)
    (hlast : (a.machine .wideSum (fun _ => Scalar.total) fun _ d => ⟨d, .zero⟩).Computes .wideSum
      stored ⟨0, 2⟩ []) :
    (a.machine .wideSum (fun _ => Scalar.total) fun _ d => ⟨d, .zero⟩).Executes .wideSum stored
      a.nodes := by
  have hseen : (a.machine .wideSum (fun _ => Scalar.total) fun _ d => ⟨d, .zero⟩).seen stored
      ⟨0, 1⟩ ⟨0, 0⟩ = stored ⟨0, 0⟩ := by
    funext m
    rw [Analysis.Admissible.seen_machine, hfill, Option.getD_none, ite_self]
  obtain ⟨hop0, ⟨hop1, hx1⟩, -⟩ := Workspace.ops_wideSum
  intro n hn l hl
  simp only [hnodes, List.mem_cons, List.not_mem_nil, or_false] at hn
  rcases hn with rfl | rfl | rfl
  · simp only [Machine.Computes, hop0]
  · have hstored : Lane.Stored (Workspace.wideSum.node ⟨0, 1⟩).axes l := hl
    simp only [Machine.Computes, hop1, hx1, List.getElem?_cons_zero, Option.bind_some,
      Operand.node?, Option.mem_some_iff, exists_eq_left', Machine.combined, hseen]
    rw [← total_into hstored]
    simp only [Analysis.machine]
  · obtain rfl : l = [] := by
      have hscalar : (Workspace.wideSum.node ⟨0, 2⟩).axes = [] := by decide
      change Lane.Stored (Workspace.wideSum.node ⟨0, 2⟩).axes l at hl
      rw [hscalar] at hl
      cases l with
      | nil => rfl
      | cons _ _ => simp at hl
    exact hlast

theorem Engine.exists_analyze_wideSum :
    ∃ a, default.analyze .wideSum [⟨0, 2⟩] = .ok a ∧ a.nodes = [⟨0, 0⟩, ⟨0, 1⟩, ⟨0, 2⟩] ∧
      (∀ n ∈ a.nodes, (a.padding? n).map PaddingValue.content = some (.exact (inferred n))) ∧
      a.Admissible .wideSum .default (fun _ => Scalar.total) (fun _ d => ⟨d, .zero⟩) stored := by
  obtain ⟨a, ha, hnodes, hpadding, hfill, hlast⟩ :
      ∃ a, default.analyze .wideSum [⟨0, 2⟩] = .ok a ∧ a.nodes = [⟨0, 0⟩, ⟨0, 1⟩, ⟨0, 2⟩] ∧
        (∀ n ∈ a.nodes, (a.padding? n).map PaddingValue.content = some (.exact (inferred n))) ∧
        fillFor (a.settings ⟨0, 0⟩) (some ⟨0, 1⟩) = none ∧
        (a.machine .wideSum (fun _ => Scalar.total) fun _ d => ⟨d, .zero⟩).Computes .wideSum stored
          ⟨0, 2⟩ [] :=
    Workspace.built_wideSum.exists_analyze 0 [⟨0, 0⟩, ⟨0, 1⟩, ⟨0, 2⟩] (by decide)
      (by decide +kernel)
  refine ⟨a, ha, hnodes, hpadding,
    Analysis.admissible_of_exact (executes hnodes hfill hlast) ?_ hpadding ?_ ?_ ?_⟩
  · exact Machine.repeats_total (fun _ => rfl) fun n hn fn axes keep x hop hx =>
      Workspace.eq_sum_of_wideSum (hnodes ▸ hn) hop hx
  · intro n hn declared hop l hl
    simp only [hnodes, List.mem_cons, List.not_mem_nil, or_false] at hn
    rcases hn with rfl | rfl | rfl
    · rw [stored, if_neg hl.2]
      decide +kernel
    · simp [Workspace.ops_wideSum.2.1] at hop
    · simp [Workspace.ops_wideSum.2.2.1] at hop
  · have hrange : ∀ n ∈ a.nodes, Platform.default.InRange (real n) := by rw [hnodes]; decide +kernel
    intro n hn l hl
    rw [stored, if_pos hl]
    exact hrange n hn
  · rw [hnodes]
    decide

/-- The sum of `2^64` ones is taken for zero. -/
theorem Engine.wideSum_not_equal :
    ∃ a q v, default.analyze .wideSum [⟨0, 2⟩] = .ok a ∧
      a.Admissible .wideSum .default (fun _ => Scalar.total) (fun _ d => ⟨d, .zero⟩) stored ∧
      a.padding? ⟨0, 1⟩ = some q ∧ q.content = .exact v ∧ v = ⟨.float32, .zero⟩ ∧
      Lane.Padding (Workspace.wideSum.node ⟨0, 1⟩).axes [1] ∧
      (stored ⟨0, 1⟩ [1]).equal v = false := by
  obtain ⟨a, ha, hnodes, hpadding, hadmissible⟩ := exists_analyze_wideSum
  obtain ⟨q, hq, hv⟩ := Option.map_eq_some_iff.1 (hpadding ⟨0, 1⟩ (by simp [hnodes]))
  exact ⟨a, q, _, ha, hadmissible, hq, hv, rfl, by decide +kernel, by decide +kernel⟩

end
end LanePadding
