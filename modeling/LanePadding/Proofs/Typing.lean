import LanePadding.Proofs.Reachable
import LanePadding.Proofs.Simulation

/-!
# Element types of padding lanes

Scalars can be computed with only if they have the element types that the operators ask for.
Builders check the element types of a graph; this file follows them through an analysis.  Lanes of a
tensor can only hold scalars of its element type (`Content.OfType`), and on such content every rule
answers, with content of the element type of the node.

The graph itself has to be given supported element types where builders check nothing: in immediate
scalars and symbols.  All other element types come from these, from leaves and from conversions, so
all nodes of the graph have supported ones (`Workspace.Admissible.isSupported`).

## What is here

* `Returns` — a computation succeeds, with an answer of a certain kind.
* `Platform.Complete` — a platform that knows the limits of all supported element types.
* `PaddingValue.returns_unaryPadding`, `Platform.Complete.returns_binaryPadding`, ... — one theorem
  for each rule.
* `Node.Formed.operands_typed` — the operands of a node and their element types, operator by
  operator.
* `Workspace.Admissible` — what is asked of a graph beyond what builders check.
* `Entry.Typed` — what is known about a tensor fits its element type; `Run.Update.typed` keeps it.
-/

set_option autoImplicit false

namespace LanePadding

/-! ## Computations that succeed -/

section Returns

variable {ε α β : Type}

/-- The computation succeeds, and `P` holds of its answer. -/
def Returns (x : Except ε α) (P : α → Prop) : Prop := ∃ a, x = .ok a ∧ P a

variable {x : Except ε α} {P : α → Prop}

theorem returns_ok {a : α} (h : P a) : Returns (.ok a : Except ε α) P := ⟨a, rfl, h⟩

theorem Returns.bind {f : α → Except ε β} {Q : β → Prop} (h : Returns x P)
    (hf : ∀ a, P a → Returns (f a) Q) :
    Returns (x >>= f) Q := by
  obtain ⟨a, rfl, ha⟩ := h
  exact hf a ha

theorem returns_ofScalar {x : Except ScalarError α} (h : Returns x P) :
    Returns (RunError.ofScalar x) P := by
  obtain ⟨a, rfl, ha⟩ := h
  exact ⟨a, rfl, ha⟩

end Returns

/-! ## Scalars -/

namespace Scalar

theorem returns_ofDouble {d : DType} (hd : d.isSupported = true) (v : Number.Double) :
    Returns (ofDouble d v) (·.dtype = d) :=
  ⟨_, if_pos hd, rfl⟩

theorem returns_evalUnary (fn : UnaryFn) {v : Scalar} (out : DType)
    (hv : v.dtype.isSupported = true) :
    Returns (evalUnary (.unary fn) v out) (·.dtype = v.dtype) := by
  simp only [evalUnary, applyUnary]
  split <;> exact returns_ofDouble hv _

theorem returns_evalBinary (fn : BinaryFn) {a b : Scalar} (ha : a.dtype.isSupported = true)
    (hab : a.dtype = b.dtype) : Returns (evalBinary (.binary fn) a b) (·.dtype = a.dtype) := by
  rw [evalBinary, if_neg (not_not.2 hab)]
  exact returns_ofDouble ha _

theorem returns_evalCompare {mode : CompareMode} (hmode : mode.isKnown = true) {a b : Scalar}
    (hab : a.dtype = b.dtype) : Returns (evalCompare mode a b) fun _ => True := by
  rw [evalCompare, if_neg (not_not.2 hab)]
  cases mode with
  | unknown code => simp [CompareMode.isKnown] at hmode
  | _ => exact returns_ok trivial

theorem returns_evalReduceRepeated (fn : ReduceFn) {v : Scalar} (hv : v.dtype.isSupported = true)
    (count : Int) :
    Returns (evalReduceRepeated (.reduce fn) v count) (·.dtype = v.dtype) := by
  cases fn with
  | sum => exact returns_ofDouble hv _
  | prod => exact returns_ofDouble hv _
  | max => exact returns_ok rfl
  | min => exact returns_ok rfl

end Scalar

/-- The platform knows the limits of all supported element types. -/
def Platform.Complete (p : Platform) : Prop :=
  ∀ d : DType, d.isSupported = true → Returns (p.sentinels d) fun s => s.1.dtype = d ∧ s.2.dtype = d

theorem Platform.complete_default : default.Complete := by
  intro d hd
  cases d <;> first | exact ⟨_, rfl, rfl, rfl⟩ | simp [DType.isSupported, DType.isFloat,
    DType.isInt] at hd

/-! ## Rules of operators -/

/-- Padding lanes of a tensor of the element type `d` can hold such content: a scalar is of that
type, and the kind of content is in the table. -/
def Content.OfType (d : DType) : Content → Prop
  | .exact v => v.dtype = d
  | .unknown _ => False
  | _ => True

theorem Content.ofType_iff {d : DType} {c : Content} :
    c.OfType d ↔ c.isKnown = true ∧ ∀ v, c = .exact v → v.dtype = d := by
  cases c <;> simp [OfType, isKnown]

namespace PaddingValue

variable {d : DType} {p : PaddingValue}

theorem returns_unaryPadding (fn : UnaryFn) (out : DType) (hd : d.isSupported = true)
    (hp : p.content.OfType d) : Returns (p.unaryPadding (.unary fn) out) (·.content.OfType d) := by
  rw [unaryPadding]
  cases hc : p.content with
  | exact v =>
    obtain rfl : v.dtype = d := by rwa [hc] at hp
    exact (returns_ofScalar (Scalar.returns_evalUnary fn out hd)).bind fun u hu => returns_ok hu
  | _ => exact returns_ok trivial

/-- A conversion answers in the element type that it goes to. -/
theorem returns_castPadding (hd : d.isSupported = true) :
    Returns (p.unaryPadding .cast d) (·.content.OfType d) := by
  rw [unaryPadding]
  cases p.content with
  | exact v =>
    exact (returns_ofScalar (Scalar.returns_ofDouble hd _)).bind fun u hu => returns_ok hu
  | _ => exact returns_ok trivial

theorem returns_reducePadding (fn : ReduceFn) (count : Int) (hd : d.isSupported = true)
    (hp : p.content.OfType d) :
    Returns (p.reducePadding (.reduce fn) count) (·.content.OfType d) := by
  rw [reducePadding]
  cases hc : p.content with
  | exact v =>
    obtain rfl : v.dtype = d := by rwa [hc] at hp
    exact (returns_ofScalar (Scalar.returns_evalReduceRepeated fn hd count)).bind
      fun u hu => returns_ok hu
  | _ => exact returns_ok trivial

theorem ofType_meetData (p : PaddingValue) (d : DType) : p.meetData.content.OfType d := by
  rw [meetData]
  split <;> exact trivial

end PaddingValue

namespace Platform

variable {platform : Platform} {d : DType} {lhs rhs : PaddingValue}

theorem Complete.returns_compareWithData (h : platform.Complete) (mode : CompareMode) {v : Scalar}
    (hv : v.dtype.isSupported = true) :
    Returns (platform.compareWithData mode v) (·.content.OfType .bool) := by
  refine (h v.dtype hv).bind fun s _ => ?_
  dsimp only
  split_ifs <;> exact returns_ok (by simp [PaddingValue.exact, PaddingValue.ofContent,
    PaddingValue.unconstrained, Content.OfType, Scalar.ofBool])

theorem Complete.returns_comparePadding (h : platform.Complete) {mode : CompareMode}
    (hmode : mode.isKnown = true) (hd : d.isSupported = true) (hl : lhs.content.OfType d)
    (hr : rhs.content.OfType d) :
    Returns (platform.comparePadding mode lhs rhs) (·.content.OfType .bool) := by
  rw [comparePadding, if_neg (by simp [hmode])]
  cases hlc : lhs.content <;> cases hrc : rhs.content <;> rw [hlc] at hl <;> rw [hrc] at hr <;>
    simp only [Content.OfType] at hl hr
  case exact.exact v u =>
    refine (returns_ofScalar (Scalar.returns_evalCompare hmode (hl.trans hr.symm))).bind
      fun b _ => ?_
    exact returns_ok rfl
  case exact.dependent v e => exact h.returns_compareWithData mode (hl ▸ hd)
  case dependent.exact e v => exact h.returns_compareWithData mode.flip (hr ▸ hd)
  case unconstrained.unconstrained =>
    refine returns_ok ?_
    split
    · exact rfl
    · exact trivial
  all_goals exact returns_ok trivial

theorem Complete.returns_binaryWithData (h : platform.Complete) (op : OpKind) {v : Scalar}
    (hv : v.dtype.isSupported = true) :
    Returns (platform.binaryWithData op v) (·.content.OfType v.dtype) := by
  refine (h v.dtype hv).bind fun s hs => ?_
  dsimp only
  split_ifs
  · exact returns_ok hs.2
  · exact returns_ok hs.1
  · exact returns_ok trivial

theorem Complete.returns_binaryPadding (h : platform.Complete) (fn : BinaryFn)
    (hd : d.isSupported = true) (hl : lhs.content.OfType d) (hr : rhs.content.OfType d) :
    Returns (platform.binaryPadding (.binary fn) lhs rhs) (·.content.OfType d) := by
  rw [binaryPadding]
  cases hlc : lhs.content <;> cases hrc : rhs.content <;> rw [hlc] at hl <;> rw [hrc] at hr <;>
    simp only [Content.OfType] at hl hr
  case exact.exact v u =>
    subst hl
    exact (returns_ofScalar (Scalar.returns_evalBinary fn hd hr.symm)).bind
      fun b hb => returns_ok hb
  case exact.dependent v e =>
    subst hl
    exact h.returns_binaryWithData _ hd
  case dependent.exact e v =>
    subst hr
    dsimp only
    split_ifs
    · exact h.returns_binaryWithData _ hd
    · exact returns_ok trivial
  all_goals exact returns_ok trivial

theorem Complete.returns_neutral (h : platform.Complete) (fn : ReduceFn)
    (hd : d.isSupported = true) :
    Returns (platform.neutral (.reduce fn) d) (·.dtype = d) := by
  cases fn with
  | sum => exact returns_ofScalar (Scalar.returns_ofDouble hd _)
  | prod => exact returns_ofScalar (Scalar.returns_ofDouble hd _)
  | max => exact (h d hd).bind fun s hs => returns_ok hs.1
  | min => exact (h d hd).bind fun s hs => returns_ok hs.2

end Platform

/-- An input answers if the convention for inputs is of a known kind. -/
theorem RunM.returns_simulatePlaceholder {engine : Engine}
    (hengine : ∀ p ∈ engine.inputPadding, p.content.isKnown = true) {n : Node}
    {declared : Option PaddingValue} (hn : n.dtype.isSupported = true)
    (hdeclared : ∀ p ∈ declared, p.content.OfType n.dtype) :
    Returns (simulatePlaceholder engine n declared) (·.content.OfType n.dtype) := by
  unfold simulatePlaceholder
  split
  · rename_i p
    exact returns_ok (hdeclared p rfl)
  · split
    · rename_i p hp
      split
      · exact returns_ofScalar ((Scalar.returns_ofDouble hn _).bind fun u hu => returns_ok hu)
      · rename_i hexact
        exact returns_ok (Content.ofType_iff.2 ⟨hengine p hp, fun v hv => absurd hv (hexact v)⟩)
    · exact returns_ofScalar ((Scalar.returns_ofDouble hn _).bind fun u hu => returns_ok hu)

/-! ## Element types of a graph -/

/-- **The operands of a node with their element types**, as many as its operator takes. -/
theorem Node.Formed.operands_typed {w : Workspace} {x : NodeRef} (h : (w.node x).Formed w x) :
    match (w.node x).op with
    | .placeholder declared => (w.node x).dtype.isSupported = true ∧
      ∀ p ∈ declared, ∀ v, p.content = .exact v → v.dtype = (w.node x).dtype
    | .constant v => (w.node x).dtype.isSupported = true ∧ v.dtype = (w.node x).dtype
    | .cast => ∃ a, (w.node x).operands = [a] ∧ (w.node x).dtype.isSupported = true
    | .unary _ | .broadcast => ∃ a, (w.node x).operands = [a] ∧ w.operandDType a = (w.node x).dtype
    | .reduce _ _ _ => ∃ y, (w.node x).operands = [.node y] ∧ (w.node y).dtype = (w.node x).dtype
    | .binary _ => ∃ a b, (w.node x).operands = [a, b] ∧
      w.operandDType a = (w.node x).dtype ∧ w.operandDType b = (w.node x).dtype
    | .compare mode => ∃ a b, (w.node x).operands = [a, b] ∧ mode.isKnown = true ∧
      (w.node x).dtype = .bool ∧ w.operandDType a = w.operandDType b
    | .select => ∃ c t f, (w.node x).operands = [c, t, f] ∧ w.operandDType c = .bool ∧
      w.operandDType t = (w.node x).dtype ∧ w.operandDType f = (w.node x).dtype
    | .cmpSel mode => ∃ a b t f, (w.node x).operands = [a, b, t, f] ∧ mode.isKnown = true ∧
      w.operandDType a = w.operandDType b ∧
      w.operandDType t = (w.node x).dtype ∧ w.operandDType f = (w.node x).dtype
    | .invalid | .unknown _ => False := by
  have htyped := h.typed
  have hoperands := RunM.exists_operands h.arity
  rw [Typed] at htyped
  cases hop : (w.node x).op with
  | placeholder _ | constant _ => rwa [hop] at htyped
  | cast =>
    rw [hop] at htyped hoperands
    obtain ⟨a, ha⟩ := hoperands
    exact ⟨a, ha, htyped⟩
  | unary _ | broadcast =>
    rw [hop] at htyped hoperands
    obtain ⟨a, ha⟩ := hoperands
    exact ⟨a, ha, htyped a (by simp [ha])⟩
  | reduce fn axes keep =>
    rw [hop] at htyped
    obtain ⟨y, hy, -, -⟩ := h.reduces fn axes keep hop
    exact ⟨y, hy, htyped (.node y) (by simp [hy])⟩
  | binary _ =>
    rw [hop] at htyped hoperands
    obtain ⟨a, b, hab⟩ := hoperands
    exact ⟨a, b, hab, htyped a (by simp [hab]), htyped b (by simp [hab])⟩
  | compare _ =>
    rw [hop] at htyped hoperands
    obtain ⟨a, b, hab⟩ := hoperands
    rw [hab] at htyped
    exact ⟨a, b, hab, htyped⟩
  | select =>
    rw [hop] at htyped hoperands
    obtain ⟨c, t, f, hctf⟩ := hoperands
    rw [hctf] at htyped
    exact ⟨c, t, f, hctf, htyped⟩
  | cmpSel _ =>
    rw [hop] at htyped hoperands
    obtain ⟨a, b, t, f, habtf⟩ := hoperands
    rw [habtf] at htyped
    exact ⟨a, b, t, f, habtf, htyped⟩
  | invalid | unknown _ => exact absurd h.arity (by simp [hop, Op.kind, OpKind.arity?])

/-- The element type of a node is a supported one, or it comes from an operand. -/
theorem Node.Formed.isSupported_or {w : Workspace} {x : NodeRef} (h : (w.node x).Formed w x) :
    (w.node x).dtype.isSupported = true ∨
      ∃ o ∈ (w.node x).operands, w.operandDType o = (w.node x).dtype := by
  have hoperands := h.operands_typed
  cases hop : (w.node x).op <;> rw [hop] at hoperands
  case placeholder | constant => exact .inl hoperands.1
  case cast =>
    obtain ⟨a, -, hd⟩ := hoperands
    exact .inl hd
  case unary | broadcast =>
    obtain ⟨a, ha, hd⟩ := hoperands
    exact .inr ⟨a, by simp [ha], hd⟩
  case reduce =>
    obtain ⟨y, hy, hd⟩ := hoperands
    exact .inr ⟨.node y, by simp [hy], hd⟩
  case binary =>
    obtain ⟨a, b, hab, hd, -⟩ := hoperands
    exact .inr ⟨a, by simp [hab], hd⟩
  case compare =>
    obtain ⟨a, b, -, -, hbool, -⟩ := hoperands
    rw [hbool]
    exact .inl rfl
  case select =>
    obtain ⟨c, t, f, hctf, -, hd, -⟩ := hoperands
    exact .inr ⟨t, by simp [hctf], hd⟩
  case cmpSel =>
    obtain ⟨a, b, t, f, habtf, -, -, hd, -⟩ := hoperands
    exact .inr ⟨t, by simp [habtf], hd⟩
  case invalid | unknown => exact hoperands.elim

/-- Whether an immediate scalar or a symbol has a supported element type. -/
def Operand.isSupported : Operand → Bool
  | .node _ => true
  | .scalar v => v.dtype.isSupported
  | .symbol _ d => d.isSupported

/-- Whether a padding value that the operator declares is of a known kind. -/
def Op.declaresKnown : Op → Bool
  | .placeholder (some p) => p.content.isKnown
  | _ => true

namespace Workspace

/-- What a graph needs to be analysed beyond what builders check: the padding values that its inputs
declare are of known kinds, and its immediate scalars and symbols have supported element types. -/
def Admissible (w : Workspace) (g : Nat) : Prop :=
  ∀ x ∈ w.allNodes g, (w.node x).op.declaresKnown = true ∧ ∀ o ∈ (w.node x).operands,
    o.isSupported = true

instance (w : Workspace) (g : Nat) :
    Decidable (w.Admissible g) := inferInstanceAs (Decidable (∀ x ∈ _, _))

variable {w : Workspace} {g : Nat}

theorem Admissible.declared (h : w.Admissible g) {x : NodeRef} (hx : x.graph = g) (hhas : w.Has x)
    {p : PaddingValue} (hp : (w.node x).op = .placeholder (some p)) : p.content.isKnown = true := by
  have hknown := (h x (mem_allNodes.2 ⟨hx, hhas⟩)).1
  rwa [hp] at hknown

theorem Admissible.isSupported_of_inputs (h : w.Admissible g) {x : NodeRef} (hx : x.graph = g)
    (hhas : w.Has x) (hinputs : ∀ y ∈ (w.node x).inputs, (w.node y).dtype.isSupported =
      true) {o : Operand}
    (ho : o ∈ (w.node x).operands) : (w.operandDType o).isSupported = true := by
  have hsupported := (h x (mem_allNodes.2 ⟨hx, hhas⟩)).2 o ho
  cases o with
  | node y => exact hinputs y (List.mem_filterMap.2 ⟨_, ho, rfl⟩)
  | scalar v => exact hsupported
  | symbol name d => exact hsupported

/-- **All nodes of an admissible graph have supported element types.** -/
theorem Admissible.isSupported (h : w.Admissible g) (hw : w.WellFormed) {x : NodeRef}
    (hx : x.graph = g) (hhas : w.Has x) : (w.node x).dtype.isSupported = true := by
  -- by induction on the position: nodes read earlier ones
  have hupto : ∀ i, ∀ x, x.graph = g → w.Has x → x.index < i →
      (w.node x).dtype.isSupported = true := by
    intro i
    induction i with
    | zero => exact fun x _ _ hi => absurd hi (Nat.not_lt_zero _)
    | succ i ih =>
      intro x hx hhas hi
      have hformed := hw x hhas
      rcases hformed.isSupported_or with hchecked | ⟨o, ho, hdtype⟩
      · exact hchecked
      · rw [← hdtype]
        refine h.isSupported_of_inputs hx hhas (fun y hy => ?_) ho
        obtain ⟨hgraph, hyhas⟩ := hw.has_input hhas hy
        have hindex := (hformed.earlier y hy).2
        exact ih y (hgraph.trans hx) hyhas (by omega)
  exact hupto (x.index + 1) x hx hhas (Nat.lt_succ_self _)

theorem Admissible.isSupported_operand (h : w.Admissible g) (hw : w.WellFormed) {x : NodeRef}
    (hx : x.graph = g) (hhas : w.Has x) {o : Operand} (ho : o ∈ (w.node x).operands) :
    (w.operandDType o).isSupported = true := by
  refine h.isSupported_of_inputs hx hhas (fun y hy => ?_) ho
  obtain ⟨hgraph, hyhas⟩ := hw.has_input hhas hy
  exact h.isSupported hw (hgraph.trans hx) hyhas

end Workspace

/-! ## Element types in the state of an analysis -/

/-- A simulated tensor of the element type `d`: its padding lanes hold such content, and only
scalars of this type are written into them. -/
structure Entry.Typed (d : DType) (e : Entry) : Prop where
  padding : ∃ p, e.padding = some p ∧ p.content.OfType d
  fills : ∀ s ∈ e.settings, ∀ v, s.constant? = some v → v.dtype = d

/-- What consumers read from a tensor is of its element type. -/
theorem Entry.Typed.read {e : Entry} {d : DType} (h : e.Typed d) (x : NodeRef)
    (c : Option NodeRef) :
    ∃ p, e.read x c = some p ∧ p.content.OfType d := by
  rw [Entry.read]
  cases hsource : e.source? c with
  | none => exact h.padding
  | some i =>
    obtain ⟨s, v, hs, hv, -⟩ := Entry.exists_of_source? hsource
    refine ⟨s.padding x, by simp [hs], ?_⟩
    rw [Setting.padding_of_constant? hv]
    exact h.fills s (List.mem_of_getElem? hs) v hv

namespace Run

variable {w : Workspace} {g : Nat} {c : Option NodeRef} {x y : NodeRef} {t : Bool} {r r' : Run}

/-- A constant among the settings was there before, or it is of the element type of the tensor. -/
theorem Update.constant?_cases (h : Update w c x t r r') {s' : Setting}
    (hs' : s' ∈ (r'.entry x).settings) {v : Scalar} (hv : s'.constant? = some v) :
    (∃ s ∈ (r.entry x).settings, s.constant? = some v) ∨ v.dtype = (w.node x).dtype := by
  have hmodify : ∀ {i : Nat},
      s' ∈ (r.entry x).settings.modify i (fun s => s.addDemand c s.isTargeted) →
      ∃ s ∈ (r.entry x).settings, s.constant? = some v := by
    intro i hmem
    rcases mem_modify hmem with hmem | ⟨s, hs, rfl⟩
    · exact ⟨s', hmem, hv⟩
    · exact ⟨s, List.mem_of_getElem? hs, by rwa [Setting.constant?_addDemand] at hv⟩
  cases h with
  | rely hsize =>
    rw [entry_modifyEntry hsize, if_pos rfl, Entry.rely] at hs'
    split at hs'
    · exact .inl (hmodify hs')
    · exact .inl ⟨s', hs', hv⟩
  | write hsize fill hfill =>
    rw [entry_write hsize, if_pos rfl, Entry.write] at hs'
    split at hs'
    · exact .inl (hmodify hs')
    · rcases List.mem_append.1 hs' with hmem | hmem
      · exact .inl ⟨s', hmem, hv⟩
      · obtain rfl := List.mem_singleton.1 hmem
        refine .inr (hfill v ?_)
        rw [Setting.constant?, Entry.fill_newSetting] at hv
        split at hv <;> simp_all

/-- Updates keep the element types of all tensors of the graph. -/
theorem Update.typed (h : Update w c x t r r') (hy : y.graph = x.graph)
    (htyped : (r.entry y).Typed (w.node y).dtype) : (r'.entry y).Typed (w.node y).dtype := by
  by_cases hxy : x.index = y.index
  · obtain rfl : x = y := by cases x; cases y; simp_all
    constructor
    · obtain ⟨p, hp, hcontent⟩ := htyped.padding
      have hclone := h.grows.map_clone
      rw [hp] at hclone
      obtain ⟨p', hp', hsame⟩ := Option.map_eq_some_iff.1 hclone
      have hkept : p'.clone.content = p.clone.content := by rw [hsame]
      exact ⟨p', hp', (hkept ▸ hcontent : p'.clone.content.OfType _)⟩
    · intro s' hs' v hv
      rcases h.constant?_cases hs' hv with ⟨s, hs, hsv⟩ | hdtype
      · exact htyped.fills s hs v hsv
      · exact hdtype
  · rwa [h.entry_of_ne hxy]

theorem Grown.typed {T : NodeRef → Prop} (h : Grown w g c T r r') (hy : y.graph = g)
    (htyped : (r.entry y).Typed (w.node y).dtype) : (r'.entry y).Typed (w.node y).dtype := by
  have hnotes := h.notes
  clear h
  induction hnotes with
  | refl => exact htyped
  | tail _ hnote ih =>
    obtain ⟨x, -, hx, hupdate⟩ := hnote
    exact hupdate.typed (hy.trans hx.symm) ih

end Run
end LanePadding
