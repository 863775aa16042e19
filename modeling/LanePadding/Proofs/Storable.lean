import LanePadding.Proofs.Rounding
import LanePadding.Proofs.Targeting

/-!
# Padding values can be stored

A scalar carries a double, and not every double is a value of the scalar's element type.  If the
scalars in a graph were all rounded to their element types when they were made, so is every scalar
that an analysis finds in padding lanes or writes there (`Engine.storable_of_analyze`), and it has
the element type of its tensor.

There is little to do for most operators, which round what they compute.  The other scalars are
passed on: a branch of a selection, a maximum of copies, a limit of the platform.  And constants are
written where somebody requires them, so they are neutral elements, zeros, or fallbacks of the rules
for consumers that may fault.

Constants are known up to equality, so `Scalar.Storable` does not tell the two zeros apart.

## What is here

* `Scalar.Made`, `Scalar.Storable` — scalars that were rounded, and those that rounding leaves as
  they are.
* `Run.storable_of_infer` — the equation of a node, one operator after the other.
* `Run.Closed.storable` — constants that are written.
-/

set_option autoImplicit false

namespace LanePadding

open Number

/-! ## Scalars -/

namespace Scalar

/-- The scalar stands for some number, which was rounded to its element type. -/
def Made (s : Scalar) : Prop := ∃ v, ofDouble s.dtype v = .ok s

/-- The value is one of the element type: rounding leaves it as it is. -/
def Storable (s : Scalar) : Prop := (⟨s.dtype, s.dtype.round s.value⟩ : Scalar).equal s = true

instance (s : Scalar) : Decidable s.Storable := inferInstanceAs (Decidable (_ = true))

variable {s a b u : Scalar}

/-- A scalar that was made may have been made from its own value. -/
theorem made_iff : s.Made ↔ s.dtype.isSupported = true ∧ s.dtype.round s.value = s.value := by
  constructor
  · rintro ⟨v, hv⟩
    obtain ⟨hsupported, hs⟩ := ofDouble_eq_ok hv
    have hvalue : s.value = s.dtype.round v := congrArg value hs
    exact ⟨hsupported, by rw [hvalue, DType.round_round]⟩
  · rintro ⟨hsupported, hround⟩
    exact ⟨s.value, by rw [ofDouble, if_pos hsupported, hround]⟩

instance (s : Scalar) : Decidable s.Made := decidable_of_iff _ made_iff.symm

theorem storable_of_round_eq {d : DType} {v : Double} (h : d.round v = v) :
    (⟨d, v⟩ : Scalar).Storable :=
  equal_iff.2 ⟨rfl, .inl h⟩

theorem Made.storable (h : s.Made) : s.Storable := storable_of_round_eq (made_iff.1 h).2

theorem storable_of_ofDouble {d : DType} {v : Double} (h : ofDouble d v = .ok s) : s.Storable := by
  obtain ⟨-, rfl⟩ := ofDouble_eq_ok h
  exact storable_of_round_eq (d.round_round v)

theorem storable_zero (d : DType) :
    (⟨d, .zero⟩ : Scalar).Storable := storable_of_round_eq d.round_zero

theorem storable_one (d : DType) : (⟨d, .one⟩ : Scalar).Storable := storable_of_round_eq d.round_one

theorem storable_ofBool (t : Bool) : (ofBool t).Storable := by
  rw [ofBool]
  split
  · exact storable_one .bool
  · exact storable_zero .bool

/-- Equal scalars can both be stored, or none of them. -/
theorem Storable.of_equal (h : a.Storable) (hab : a.equal b = true) : b.Storable := by
  obtain ⟨hdtype, hvalue⟩ := equal_iff.1 hab
  have hround := (equal_iff.1 h).2
  refine equal_iff.2 ⟨rfl, ?_⟩
  rw [← hdtype]
  exact ((a.dtype.round_agrees hvalue.symm).trans hround).trans hvalue

/-! ### Operators -/

theorem storable_of_evalUnary {op : OpKind} {out : DType} (h : evalUnary op a out = .ok u) :
    u.Storable := by
  cases op with
  | cast => exact storable_of_ofDouble h
  | unary fn =>
    rw [evalUnary, applyUnary] at h
    split at h <;> exact storable_of_ofDouble h
  | _ => simp [evalUnary] at h

theorem storable_of_evalBinary {op : OpKind} (h : evalBinary op a b = .ok u) : u.Storable := by
  obtain ⟨-, fn, -, happly⟩ := evalBinary_eq_ok h
  exact storable_of_ofDouble happly

/-- A maximum or minimum of copies is the scalar itself, and other reductions round. -/
theorem Storable.evalReduceRepeated {fn : ReduceFn} {count : Int} (ha : a.Storable)
    (h : evalReduceRepeated (.reduce fn) a count = .ok u) : u.Storable := by
  cases fn with
  | sum | prod => exact storable_of_ofDouble h
  | max | min => exact Except.ok.inj h ▸ ha

end Scalar

/-! ## Padding values -/

/-- If the lanes hold a scalar, it can be stored. -/
def Content.Storable (c : Content) : Prop := ∀ v, c = .exact v → v.Storable

theorem PaddingValue.storable_unaryPadding {p q : PaddingValue} {op : OpKind} {out : DType}
    (h : p.unaryPadding op out = .ok q) : q.content.Storable := by
  rw [unaryPadding] at h
  split at h
  · obtain ⟨u, hu, rfl⟩ := exists_of_map_eq_ok h
    rintro _ ⟨⟩
    exact Scalar.storable_of_evalUnary (RunError.ofScalar_eq_ok.1 hu)
  all_goals
    obtain rfl := Except.ok.inj h
    rintro _ ⟨⟩

theorem PaddingValue.storable_reducePadding {p q : PaddingValue} {fn : ReduceFn} {count : Int}
    (hp : p.content.Storable) (h : p.reducePadding (.reduce fn) count = .ok q) :
    q.content.Storable := by
  rw [reducePadding] at h
  split at h
  · rename_i v hv
    obtain ⟨u, hu, rfl⟩ := exists_of_map_eq_ok h
    rintro _ ⟨⟩
    exact (hp v hv).evalReduceRepeated (RunError.ofScalar_eq_ok.1 hu)
  all_goals
    obtain rfl := Except.ok.inj h
    rintro _ ⟨⟩

namespace Platform

variable {p : Platform} {q lhs rhs : PaddingValue} {u v : Scalar} {d : DType}

theorem Answers.storable_lowest (h : p.Answers) (hv : p.lowest d = .ok v) : v.Storable := by
  obtain ⟨rfl, hround⟩ := h.lowest d v hv
  exact Scalar.storable_of_round_eq hround

theorem Answers.storable_highest (h : p.Answers) (hv : p.highest d = .ok v) : v.Storable := by
  obtain ⟨rfl, hround⟩ := h.highest d v hv
  exact Scalar.storable_of_round_eq hround

theorem Answers.storable_neutral (h : p.Answers) {fn : ReduceFn}
    (hv : p.neutral (.reduce fn) d = .ok v) :
    v.Storable := by
  cases neutral_of_eq_ok hv with
  | sum => exact Scalar.storable_zero d
  | prod => exact Scalar.storable_one d
  | max hlow => exact h.storable_lowest hlow
  | min hhigh => exact h.storable_highest hhigh

theorem storable_comparePadding {mode : CompareMode} (h : p.comparePadding mode lhs rhs = .ok q) :
    q.content.Storable := by
  intro v hv
  obtain ⟨t, rfl⟩ := exists_ofBool_of_comparePadding h hv
  exact Scalar.storable_ofBool t

theorem Answers.storable_binaryPadding (h : p.Answers) {op : OpKind}
    (hq : p.binaryPadding op lhs rhs = .ok q) :
    q.content.Storable := by
  intro u hu
  obtain ⟨_, _, -, -, hvalue⟩ | ⟨_, _, -, -, hdata⟩ | ⟨_, _, -, -, hdata⟩ :=
    binaryPadding_cases hq hu
  · exact Scalar.storable_of_evalBinary hvalue
  · exact Scalar.equal_iff.2 ⟨rfl, h.round_agrees hdata hu⟩
  · exact Scalar.equal_iff.2 ⟨rfl, h.round_agrees hdata hu⟩

end Platform

theorem storable_selectContent {cond c : Content} {onTrue onFalse : Option PaddingValue}
    (htrue : ∀ p, onTrue = some p → p.content.Storable)
    (hfalse : ∀ p, onFalse = some p → p.content.Storable)
    (h : selectContent cond onTrue onFalse = some c) : c.Storable := by
  cases cond with
  | exact k =>
    simp only [selectContent] at h
    obtain ⟨p, hp, rfl⟩ := Option.map_eq_some_iff.1 h
    split at hp
    · exact hfalse p hp
    · exact htrue p hp
  | _ =>
    simp only [selectContent] at h
    obtain ⟨t, ht, h⟩ := Option.bind_eq_some_iff.1 h
    obtain ⟨f, -, h⟩ := Option.bind_eq_some_iff.1 h
    split_ifs at h
    · exact Option.some.inj h ▸ htrue t ht
    all_goals
      obtain rfl := Option.some.inj h
      rintro _ ⟨⟩

/-! ## The scalars of a graph -/

/-- The scalar that an operand is, if it is one. -/
def Operand.scalar? : Operand → Option Scalar
  | .scalar v => some v
  | _ => none

/-- The scalars that an operator comes with: the value of a constant, or what an input is declared
to hold. -/
def Op.scalars : Op → List Scalar
  | .constant v => [v]
  | .placeholder (some ⟨.exact v, _, _⟩) => [v]
  | _ => []

/-- The scalars that a node comes with. -/
def Node.scalars (n : Node) : List Scalar := n.op.scalars ++ n.operands.filterMap Operand.scalar?

theorem Op.mem_scalars_of_declared {p : PaddingValue} {v : Scalar} (h : p.content = .exact v) :
    v ∈ (placeholder (some p)).scalars := by
  obtain ⟨content, origin, targets⟩ := p
  obtain rfl : content = .exact v := h
  exact List.mem_singleton.2 rfl

theorem Node.mem_scalars_of_operand {n : Node} {v : Scalar} (h : .scalar v ∈ n.operands) :
    v ∈ n.scalars :=
  List.mem_append_right _ (List.mem_filterMap.2 ⟨_, h, rfl⟩)

/-- All scalars of the graph were rounded to their element types: constants, immediate operands, and
what inputs are declared to hold. -/
def Workspace.Rounded (w : Workspace) (g : Nat) :
    Prop := ∀ x ∈ w.allNodes g, ∀ v ∈ (w.node x).scalars, v.Made

instance (w : Workspace) (g : Nat) :
    Decidable (w.Rounded g) := inferInstanceAs (Decidable (∀ x ∈ _, _))

/-! ## One node -/

/-- An input that declares nothing holds a scalar that was rounded to its element type. -/
theorem RunM.storable_simulatePlaceholder {engine : Engine} {n : Node}
    {declared : Option PaddingValue} (hdeclared : ∀ p ∈ declared, p.content.Storable)
    {q : PaddingValue} (h : simulatePlaceholder engine n declared = .ok q) :
    q.content.Storable := by
  have hrounded : ∀ {x : Except ScalarError Scalar}, (∀ u, x = .ok u → u.Storable) →
      RunError.ofScalar (do return .exact (← x)) = .ok q → q.content.Storable := by
    intro x hx hq
    obtain ⟨u, hu, rfl⟩ := exists_of_map_eq_ok (RunError.ofScalar_eq_ok.1 hq)
    rintro _ ⟨⟩
    exact hx u hu
  unfold simulatePlaceholder at h
  split at h
  · obtain rfl := Except.ok.inj h
    exact hdeclared _ rfl
  · split at h
    · split at h
      · exact hrounded (fun u hu => Scalar.storable_of_ofDouble hu) h
      · rename_i hexact
        obtain rfl := Except.ok.inj h
        exact fun v hv => absurd hv (hexact v)
    · exact hrounded (fun u hu => Scalar.storable_of_ofDouble hu) h

namespace Run

variable {w : Workspace} {engine : Engine} {r : Run} {n x : NodeRef}
  {nodes outputs : List NodeRef} {k : Nat} {q : PaddingValue}

section

variable (hscalars : ∀ v ∈ (w.node n).scalars, v.Storable)
  (hreads : ∀ x ∈ (w.node n).inputs, ∀ p, r.read x (some n) = some p → p.content.Storable)
include hscalars hreads

theorem storable_of_seesAt {i : Nat} {p : PaddingValue} (hp : r.seesAt w n i = some p) :
    p.content.Storable := by
  obtain ⟨a, ha, hp⟩ := Option.bind_eq_some_iff.1 hp
  have hmem := List.mem_of_getElem? ha
  intro v hv
  rcases sees_exact_cases hp hv with rfl | ⟨x, q, rfl, hq, hqv⟩
  · exact hscalars v (Node.mem_scalars_of_operand hmem)
  · exact hreads x (List.mem_filterMap.2 ⟨_, hmem, rfl⟩) q hq v hqv

/-- **What a node holds can be stored** if this is so for what it reads and for its own scalars. -/
theorem storable_of_infer (hplatform : engine.platform.Answers) {c : Content}
    (h : r.infer w engine n = some c) :
    c.Storable := by
  have hsees : ∀ {i : Nat} {p : PaddingValue}, r.seesAt w n i = some p → p.content.Storable :=
    storable_of_seesAt hscalars hreads
  rw [infer] at h
  cases hop : (w.node n).op <;> simp only [hop] at h
  case placeholder declared =>
    obtain ⟨p, hp, rfl⟩ := exists_ok_of_toOption_map h
    refine RunM.storable_simulatePlaceholder (fun d hd v hv => hscalars v ?_) hp
    rw [Node.scalars, hop, Option.mem_def.1 hd]
    exact List.mem_append_left _ (Op.mem_scalars_of_declared hv)
  case constant v =>
    obtain rfl := Option.some.inj h
    rintro _ ⟨⟩
    exact hscalars v (by simp [Node.scalars, hop, Op.scalars])
  case unary | cast =>
    obtain ⟨p, -, hp⟩ := Option.bind_eq_some_iff.1 h
    obtain ⟨q, hq, rfl⟩ := exists_ok_of_toOption_map hp
    exact PaddingValue.storable_unaryPadding hq
  case binary fn =>
    obtain ⟨left, -, hleft⟩ := Option.bind_eq_some_iff.1 h
    obtain ⟨right, -, hright⟩ := Option.bind_eq_some_iff.1 hleft
    obtain ⟨q, hq, rfl⟩ := exists_ok_of_toOption_map hright
    exact hplatform.storable_binaryPadding hq
  case broadcast =>
    obtain ⟨p, hp, rfl⟩ := Option.map_eq_some_iff.1 h
    exact hsees hp
  case reduce fn axes keep =>
    obtain ⟨x, hx, hreduce⟩ := Option.bind_eq_some_iff.1 h
    obtain ⟨a, ha, hnode⟩ := Option.bind_eq_some_iff.1 hx
    split at hreduce
    · obtain ⟨p, hp, hpadding⟩ := Option.bind_eq_some_iff.1 hreduce
      obtain ⟨q, hq, rfl⟩ := exists_ok_of_toOption_map hpadding
      exact PaddingValue.storable_reducePadding
        (hreads x (List.mem_filterMap.2 ⟨a, List.mem_of_getElem? ha, hnode⟩) p hp) hq
    · obtain ⟨v, hv, rfl⟩ := exists_ok_of_toOption_map hreduce
      rintro _ ⟨⟩
      exact hplatform.storable_neutral hv
  case compare mode =>
    obtain ⟨p, hp, rfl⟩ := Option.map_eq_some_iff.1 h
    obtain ⟨left, -, hleft⟩ := Option.bind_eq_some_iff.1 hp
    obtain ⟨right, -, hright⟩ := Option.bind_eq_some_iff.1 hleft
    exact Platform.storable_comparePadding (eq_ok_of_toOption hright)
  case select | cmpSel =>
    obtain ⟨cond, -, hselect⟩ := Option.bind_eq_some_iff.1 h
    exact storable_selectContent (fun _ => hsees) (fun _ => hsees) hselect
  case invalid | unknown => simp at h

end

/-! ## Constants that are written -/

theorem storable_of_requires (hplatform : engine.platform.Answers) {c : NodeRef} {v : Scalar}
    (h : engine.Requires w outputs x c v) : v.Storable := by
  rcases h with ⟨fn, axes, keep, -, -, -, hv⟩ | ⟨-, -, -, -, rfl⟩
  · exact hplatform.storable_neutral hv
  · exact Scalar.storable_zero _

/-- **Constants that are written can be stored**: they make the tensor safe, or somebody requires
them. -/
theorem Closed.storable (h : r.Closed w engine nodes outputs x k q)
    (hplatform : engine.platform.Answers) {s : Setting} (hs : s ∈ (r.entry x).settings) {v : Scalar}
    (hv : s.constant? = some v) : v.Storable := by
  cases h with
  | shared hshape =>
    obtain ⟨i, hi⟩ := List.mem_iff_getElem?.1 hs
    rcases Nat.lt_or_ge i k with hik | hki
    · cases hshape.offers with
      | own => exact absurd hik (Nat.not_lt_zero i)
      | filled hfirst hfill _ _ _ hsafe =>
        obtain rfl : i = 0 := Nat.lt_one_iff.1 hik
        obtain rfl := Option.some.inj (hfirst.symm.trans hi)
        obtain rfl := Fill.constant.inj (hfill.symm.trans (Setting.fill_of_constant? hv))
        obtain ⟨-, rule, -, hfallback⟩ := FaultRule.exists_of_fill? hsafe
        exact Scalar.storable_of_ofDouble hfallback
    · obtain ⟨-, hsome, hdemanders⟩ := hshape.constants i s hki hi v hv
      obtain ⟨c, hc⟩ := List.exists_mem_of_ne_nil _ hsome
      obtain ⟨u, hu, huv⟩ := hdemanders c hc
      exact (storable_of_requires hplatform hu).of_equal huv
  | lone _ _ _ _ _ _ _ hsettings =>
    rw [hsettings, List.mem_singleton] at hs
    obtain rfl := Fill.constant.inj
      ((Setting.fill_of_constant? hv).symm.trans (congrArg Setting.fill hs))
    exact Scalar.storable_zero _

end Run

/-! ## All nodes -/

namespace Engine

variable {engine : Engine} {w : Workspace} {roots : List NodeRef} {a : Analysis} {x : NodeRef}
  {p : PaddingValue} {v : Scalar}

/-- Nothing is known about a node that was not analysed. -/
theorem Simulates.mem_of_padding? {r : Run} (h : engine.Simulates w roots a r)
    (hp : a.padding? x = some p) :
    x ∈ a.nodes := by
  rw [Analysis.padding?] at hp
  split at hp
  · rename_i hgraph
    obtain ⟨p₀, hp₀, -⟩ := Run.exists_of_map_clone (h.padding_eq hgraph).symm hp
    by_contra hnot
    by_cases hhas : w.Has x
    · simp [(h.coherent.blank x hgraph hhas hnot).1] at hp₀
    · have hsize : r.entries.size ≤ x.index := by
        rw [h.coherent.size, ← hgraph]
        exact Nat.not_lt.1 hhas
      rw [Run.entry, Array.getD_eq_getD_getElem?, Array.getElem?_eq_none hsize] at hp₀
      cases hp₀
  · cases hp

/-- What consumers read can be stored if this is so for what the tensor holds. -/
theorem Ended.storable_read (h : engine.Ended w roots a) (hplatform : engine.platform.Answers)
    (hx : x ∈ a.nodes) (hown : ∀ p, (a.run.entry x).padding = some p → p.content.Storable)
    {c : Option NodeRef} (hp : a.run.read x c = some p) : p.content.Storable := by
  intro v hv
  obtain ⟨k, q, hclosed⟩ := h.closed x hx
  have hexact : p.isExact v = true := by
    rw [PaddingValue.isExact, hv]
    exact Scalar.equal_refl v
  rcases Entry.exact_cases hp hexact with ⟨⟨p₀, hp₀, hexact₀⟩, -⟩ | ⟨s, hs, ⟨u, hu, huv⟩, -⟩
  · obtain ⟨u, hu, huv⟩ := PaddingValue.exists_of_isExact hexact₀
    exact (hown p₀ hp₀ u hu).of_equal huv
  · exact (hclosed.storable hplatform hs hu).of_equal huv

/-- **Whatever nodes hold can be stored.** -/
theorem Ended.storable (h : engine.Ended w roots a) (hplatform : engine.platform.Answers)
    (hw : w.Rounded a.graph) :
    ∀ n ∈ a.nodes, ∀ p, (a.run.entry n).padding = some p → p.content.Storable := by
  refine h.lists.induction h.formed fun n hn hinputs p hp => ?_
  obtain ⟨hgraph, hhas⟩ := h.lists.has n hn
  obtain ⟨p₀, hp₀, -, hinfer⟩ := (h.outcome.settled n hn).holds
  obtain rfl := Option.some.inj (hp.symm.trans hp₀)
  refine Run.storable_of_infer (fun v hv => ?_) (fun x hx q hq => ?_) hplatform hinfer
  · exact (hw n (Workspace.mem_allNodes.2 ⟨hgraph, hhas⟩) v hv).storable
  · exact h.storable_read hplatform (h.lists.inputs n hn x hx) (hinputs x hx) hq

/-- **Values in padding lanes can be stored.**  If the scalars of a graph were made for their
element types, all scalars that an analysis finds in padding lanes or writes there are values of the
element types of their tensors. -/
theorem storable_of_analyze (hw : w.Built) (hrounded : w.Rounded a.graph)
    (hplatform : engine.platform = .default) (h : engine.analyze w roots = .ok a) :
    (∀ x p v, a.padding? x = some p → p.content = .exact v →
      v.dtype = (w.node x).dtype ∧ v.Storable) ∧
    ∀ b ∈ a.actions, ∀ v, b.fill = .constant v →
      v.dtype = (w.node b.tensor).dtype ∧ v.Storable := by
  have hanswers : engine.platform.Answers := hplatform ▸ Platform.answers_default
  have hended := ended_of_analyze hw.wellFormed h
  obtain ⟨r, hsimulates⟩ := exists_simulates hw.wellFormed h
  refine ⟨fun x p v hp hv => ?_, fun b hb v hv => ?_⟩
  · have hx := hsimulates.mem_of_padding? hp
    rw [padding?_of_mem hw.wellFormed h hx] at hp
    refine ⟨?_, hended.storable hanswers hrounded x hx p hp v hv⟩
    obtain ⟨p₀, hp₀, hcontent, -⟩ :=
      Run.exists_of_map_clone (hsimulates.padding_eq (hended.lists.has x hx).1).symm hp
    exact hsimulates.fits hw.wellFormed hx hp₀ v (hcontent.trans hv)
  · obtain ⟨hx, s, hs, hbs⟩ := hended.exists_setting hb
    obtain ⟨k, q, hclosed⟩ := hended.closed _ hx
    have hfill : s.fill = .constant v := (congrArg Action.fill hbs).symm.trans hv
    have hconst : s.constant? = some v := by rw [Setting.constant?, hfill]
    exact ⟨hended.regular.fills _ (hended.lists.has _ hx).1 s hs v hconst,
      hclosed.storable hanswers hs hconst⟩

end Engine

/-! ### An infinity among small integers -/

/-- A vector with infinity in its padding lane, converted to small integers.  The maximum of its
positive parts is an output. -/
def Workspace.saturated : Workspace :=
  (Workspace.empty.addGraph "saturated").calls
    [.placeholderWithPadding 0 "x" (some (.exact ⟨.float32, .inf false⟩)) .float32 [⟨16, 15⟩],
      .cast ⟨0, 0⟩ .int8, .binary (.binary .max) (.node ⟨0, 1⟩) (.scalar ⟨.int8, .zero⟩),
      .reduce (.reduce .max) ⟨0, 2⟩ false [0]]

theorem Workspace.built_saturated : saturated.Built :=
  (Built.addGraph "saturated" .empty).calls (by decide)

theorem Engine.exists_analyze_saturated :
    ∃ a, default.analyze .saturated [⟨0, 3⟩] = .ok a ∧
      a.graph = 0 ∧
      (a.padding? ⟨0, 2⟩).map PaddingValue.content = some (.exact ⟨.int8, .ofInt 127⟩) ∧
      a.actions = [⟨⟨0, 2⟩, .constant ⟨.int8, .ofInt (-128)⟩, []⟩] :=
  Workspace.built_saturated.exists_analyze 0 [⟨0, 0⟩, ⟨0, 1⟩, ⟨0, 2⟩, ⟨0, 3⟩] (by decide)
    (by decide +kernel)

/-- The infinity saturates at the highest integer, and the lowest one is written for the maximum.
Both can be stored. -/
theorem Engine.storable_saturated :
    ∃ a, default.analyze .saturated [⟨0, 3⟩] = .ok a ∧
      (∃ p, a.padding? ⟨0, 2⟩ = some p ∧ p.content = .exact ⟨.int8, .ofInt 127⟩ ∧
        (⟨.int8, .ofInt 127⟩ : Scalar).Storable) ∧
      ∃ b ∈ a.actions, b.fill = .constant ⟨.int8, .ofInt (-128)⟩ ∧
      (⟨.int8, .ofInt (-128)⟩ : Scalar).Storable := by
  obtain ⟨a, ha, hgraph, hpadding, hactions⟩ := exists_analyze_saturated
  have hrounded : Workspace.saturated.Rounded a.graph := by
    rw [hgraph]
    decide +kernel
  obtain ⟨hheld, hwritten⟩ := storable_of_analyze Workspace.built_saturated hrounded rfl ha
  obtain ⟨p, hp, hcontent⟩ := Option.map_eq_some_iff.1 hpadding
  obtain ⟨b, hb, hfill⟩ : ∃ b ∈ a.actions, b.fill = .constant ⟨.int8, .ofInt (-128)⟩ :=
    ⟨_, hactions ▸ List.mem_singleton_self _, rfl⟩
  exact ⟨a, ha, ⟨p, hp, hcontent, (hheld _ p _ hp hcontent).2⟩, b, hb, hfill,
    (hwritten b hb _ hfill).2⟩

end LanePadding
