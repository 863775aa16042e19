import LanePadding.Proofs.Isomorphism

/-!
# The order of nodes does not matter

A graph is a list of nodes, and an analysis simulates them in that order, but both stand for a graph
in the sense of mathematics.  If the nodes that the roots of one graph lead to are copies of those
of another one, under some renaming of nodes, then the two analyses differ in names only
(`Engine.analyses_agree_of_isomorphic`): one succeeds if the other one does, padding lanes hold the
same, and the actions are the same in another order.  Neither the order in which nodes were made or
roots are listed nor nodes off the way matter.

There is one thing that the order decides.  Fills are told apart as scalars are, for which both
zeros are equal.  If a platform has a negative zero for a limit, then a sum and a maximum may demand
zeros of different signs, and the one that is simulated first has its zero written for both
(`Engine.fill_ne_of_isomorphic`).

## What is here

* `Workspace.Isomorphic` — the nodes that roots lead to are copies of each other.
* `Engine.Gives` — what inputs hold by convention or declaration.
* `Workspace.renaming` — the correspondence that a renaming makes.
* `Engine.analyses_agree_of_isomorphic` — the two analyses are the same up to names.
-/

set_option autoImplicit false

namespace LanePadding

/-! ## Renaming nodes -/

section

variable (φ : NodeRef → NodeRef)

def PositionExpr.rename (e : PositionExpr) : PositionExpr := ⟨φ e.source, e.axes⟩

def Content.rename : Content → Content
  | .dependent e => .dependent (e.map (PositionExpr.rename φ))
  | c => c

def Operand.rename : Operand → Operand
  | .node x => .node (φ x)
  | a => a

def Fill.rename : Fill → Fill
  | .position e => .position (e.rename φ)
  | f => f

/-- The operator is the same.  The declaration of an input may name a node, which is renamed or
not. -/
inductive Op.Copied : Op → Op → Prop
  | same (op : Op) : Copied op op
  | declared {p p' : PaddingValue} (h : p'.content = p.content ∨ p'.content = p.content.rename φ) :
      Copied (.placeholder (some p)) (.placeholder (some p'))

/-- The node is the same but for the names of the nodes it reads. -/
structure Node.Copied (n n' : Node) : Prop where
  op : n.op.Copied φ n'.op
  operands : n'.operands = n.operands.map (Operand.rename φ)
  dtype : n'.dtype = n.dtype
  axes : n'.axes = n.axes

/-- The action is the same but for names: it writes the same into the tensor, for the same
readers. -/
structure Action.Copied (b b' : Action) : Prop where
  tensor : b'.tensor = φ b.tensor
  fill : (b.fill.rename φ).equal b'.fill = true
  targets : ∀ c, c ∈ b'.targets ↔ ∃ d ∈ b.targets, φ d = c

end

/-- **The graphs that the roots lead to are the same up to names**, and the roots are, whatever
their order. -/
structure Workspace.Isomorphic (w : Workspace) (roots : List NodeRef) (φ : NodeRef → NodeRef)
    (w' : Workspace) (roots' : List NodeRef) : Prop where
  bijective : Set.BijOn φ {x | w.Reaches roots x} {y | w'.Reaches roots' y}
  copied : ∀ x, w.Reaches roots x → (w.node x).Copied φ (w'.node (φ x))
  outputs : ∀ y, y ∈ roots' ↔ ∃ x ∈ roots, φ x = y

/-- The content is one that inputs hold by convention, or that one of them is declared to hold. -/
def Engine.Gives (engine : Engine) (w : Workspace) (roots : List NodeRef)
    (content : Content) : Prop :=
  (∃ p ∈ engine.inputPadding, p.content = content) ∨
    ∃ x p, w.Reaches roots x ∧ (w.node x).op = .placeholder (some p) ∧ p.content = content

/-- The nodes that the roots lead to stand for the nodes they are renamed to.  Expressions are
renamed, except that those given with inputs may be as they are. -/
def Workspace.renaming (w : Workspace) (engine : Engine) (roots : List NodeRef)
    (φ : NodeRef → NodeRef) :
    Correspondence where
  nodes x x' := w.Reaches roots x ∧ φ x = x'
  exprs e e' := e' = e.rename φ ∨ e' = e ∧ engine.Gives w roots (.dependent (some e))

section

variable {engine : Engine} {w w' : Workspace} {roots roots' nodes nodes' : List NodeRef}
  {φ : NodeRef → NodeRef} {c c' : Content}

theorem Workspace.sameContent_renaming_iff : (w.renaming engine roots φ).SameContent c c' ↔
    c' = c.rename φ ∨ c' = c ∧ engine.Gives w roots c := by
  constructor
  · intro h
    cases h with
    | copied h =>
      rcases h with rfl | ⟨rfl, hgives⟩
      · exact .inl rfl
      · exact .inr ⟨rfl, hgives⟩
    | _ => exact .inl rfl
  · intro h
    cases c with
    | dependent e =>
      cases e with
      | none =>
        rcases h with rfl | ⟨rfl, -⟩
        · exact .computed
        · exact .computed
      | some e =>
        rcases h with rfl | ⟨rfl, hgives⟩
        · exact .copied (.inl rfl)
        · exact .copied (.inr ⟨rfl, hgives⟩)
    | exact v =>
      obtain rfl : c' = .exact v := h.elim id And.left
      exact .exact v
    | unconstrained =>
      obtain rfl : c' = .unconstrained := h.elim id And.left
      exact .unconstrained
    | unknown code =>
      obtain rfl : c' = .unknown code := h.elim id And.left
      exact .unknown code

theorem Workspace.sameOp_renaming {x : NodeRef} (hx : w.Reaches roots x) {op' : Op}
    (h : (w.node x).op.Copied φ op') : (w.renaming engine roots φ).SameOp (w.node x).op op' := by
  have hgives : ∀ {p : PaddingValue}, (w.node x).op = .placeholder (some p) →
      engine.Gives w roots p.content :=
    fun {p} hp => .inr ⟨x, p, hx, hp, rfl⟩
  generalize (w.node x).op = op at h hgives
  cases h with
  | same =>
    cases op' with
    | placeholder declared =>
      cases declared with
      | none => exact .input
      | some p => exact .declared (sameContent_renaming_iff.2 (.inr ⟨rfl, hgives rfl⟩))
    | _ => exact .other (by simp [Op.kind])
  | declared h =>
    refine .declared (sameContent_renaming_iff.2 ?_)
    exact h.symm.imp_right fun hsame => ⟨hsame, hgives rfl⟩

theorem Workspace.Isomorphic.sameNode (h : w.Isomorphic roots φ w' roots')
    (engine : Engine) {x : NodeRef} (hx : w.Reaches roots x) :
    (w.renaming engine roots φ).SameNode (w.node x) (w'.node (φ x)) := by
  have hcopied := h.copied x hx
  refine ⟨sameOp_renaming hx hcopied.op, ?_, hcopied.dtype.symm, hcopied.axes.symm⟩
  rw [hcopied.operands, List.forall₂_map_right_iff]
  refine List.forall₂_same.2 fun a ha => ?_
  cases a with
  | node y => exact .node ⟨.input hx (List.mem_filterMap.2 ⟨_, ha, rfl⟩), rfl⟩
  | scalar v => exact .scalar v
  | symbol name d => exact .symbol name d

theorem Workspace.Isomorphic.consistent (h : w.Isomorphic roots φ w' roots') (engine : Engine) :
    (w.renaming engine roots φ).Consistent engine w w' := by
  constructor
  case unique =>
    constructor
    · rintro x y z ⟨hx, hxz⟩ ⟨hy, hyz⟩
      exact h.bijective.injOn hx hy (hxz.trans hyz.symm)
    · rintro x y z ⟨-, hxy⟩ ⟨-, hxz⟩
      exact hxy.symm.trans hxz
  case same =>
    rintro x _ ⟨hx, rfl⟩
    exact h.sameNode engine hx
  case exprs =>
    rintro x _ ⟨-, rfl⟩ axes
    exact .inl rfl
  case inputs => exact fun p hp => sameContent_renaming_iff.2 (.inr ⟨rfl, .inl ⟨p, hp, rfl⟩⟩)

/-- **A renaming that makes copies is an isomorphism.** -/
theorem Workspace.Isomorphic.isomorphism (h : w.Isomorphic roots φ w' roots') (engine : Engine)
    (hnodes : ∀ {x}, x ∈ nodes ↔ w.Reaches roots x)
    (hnodes' : ∀ {x}, x ∈ nodes' ↔ w'.Reaches roots' x) :
    (w.renaming engine roots φ).Isomorphism engine w roots nodes w' roots' nodes' := by
  obtain ⟨hmaps, -, hsurj⟩ := h.bijective
  constructor
  case toConsistent => exact h.consistent engine
  case all =>
    constructor
    · intro x hx
      exact ⟨φ x, hnodes'.2 (hmaps (hnodes.1 hx)), hnodes.1 hx, rfl⟩
    · intro y hy
      obtain ⟨x, hx, hxy⟩ := hsurj (hnodes'.1 hy)
      exact ⟨x, hnodes.2 hx, hx, hxy⟩
  case mem =>
    rintro x _ ⟨hx, rfl⟩
    exact ⟨hnodes.2 hx, hnodes'.2 (hmaps hx)⟩
  case outputs =>
    constructor
    · exact fun x hx => ⟨φ x, (h.outputs _).2 ⟨x, hx, rfl⟩, .root hx, rfl⟩
    · intro y hy
      obtain ⟨x, hx, hxy⟩ := (h.outputs y).1 hy
      exact ⟨x, hx, .root hx, hxy⟩

/-- The nodes of both graphs can be listed, and they stand for each other. -/
theorem Workspace.Isomorphic.exists_isomorphism (h : w.Isomorphic roots φ w' roots')
    (hw : w.WellFormed) (hw' : w'.WellFormed) {g g' : Nat}
    (hroots : ∀ x ∈ roots, x.graph = g ∧ w.Has x) (hroots' : ∀ x ∈ roots', x.graph = g' ∧ w'.Has x)
    (engine : Engine) :
    ∃ nodes nodes', w.reachable roots = .ok nodes ∧ w'.reachable roots' = .ok nodes' ∧
      (w.renaming engine roots φ).Isomorphism engine w roots nodes w' roots' nodes' := by
  obtain ⟨nodes, hreach⟩ := w.exists_reachable hw fun x hx => (hroots x hx).1
  obtain ⟨nodes', hreach'⟩ := w'.exists_reachable hw' fun x hx => (hroots' x hx).1
  exact ⟨nodes, nodes', hreach, hreach', h.isomorphism engine
    (mem_reachable_iff hw (fun x hx => (hroots x hx).2) hreach)
    (mem_reachable_iff hw' (fun x hx => (hroots' x hx).2) hreach')⟩

theorem Workspace.copied_of_sameAction {b b' : Action}
    (h : (w.renaming engine roots φ).SameAction b b') :
    b.Copied φ b' := by
  obtain ⟨tensor, fill, targets⟩ := b
  obtain ⟨tensor', fill', targets'⟩ := b'
  obtain ⟨⟨-, rfl⟩, hfill, htargets⟩ := h
  refine ⟨rfl, ?_, fun c => ⟨fun hc => ?_, ?_⟩⟩
  · cases hfill with
    | constant hv => exact hv
    | position hx axes =>
      obtain ⟨-, rfl⟩ := hx
      exact Fill.equal_refl _
  · obtain ⟨d, hd, -, hdc⟩ := htargets.right c hc
    exact ⟨d, hd, hdc⟩
  · rintro ⟨d, hd, rfl⟩
    obtain ⟨c, hc, -, rfl⟩ := htargets.left d hd
    exact hc

end

namespace Engine

variable {w w' : Workspace} {roots roots' : List NodeRef} {φ : NodeRef → NodeRef} {g g' : Nat}

/-- **The order of nodes does not matter.**  If the graphs that the roots lead to are the same up to
names, then one can be analysed just if the other one can, the padding lanes of their nodes hold the
same, and the actions are the same in another order. -/
theorem analyses_agree_of_isomorphic (hw : w.Built) (hw' : w'.Built)
    (hroots : ∀ x ∈ roots, x.graph = g ∧ w.Has x) (hroots' : ∀ x ∈ roots', x.graph = g' ∧ w'.Has x)
    (h : w.Isomorphic roots φ w' roots') (engine : Engine) :
    ((∃ a, engine.analyze w roots = .ok a) ↔ ∃ a', engine.analyze w' roots' = .ok a') ∧
    ∀ a a', engine.analyze w roots = .ok a → engine.analyze w' roots' = .ok a' →
      (∀ x, w.Reaches roots x → ∃ p p', a.padding? x = some p ∧ a'.padding? (φ x) = some p' ∧
        (p'.content = p.content.rename φ ∨
          p'.content = p.content ∧ engine.Gives w roots p.content)) ∧
      ∃ l, l.Perm a'.actions ∧ List.Forall₂ (Action.Copied φ) a.actions l := by
  have hwf := hw.wellFormed
  have hwf' := hw'.wellFormed
  obtain ⟨nodes, nodes', hreach, hreach', hiso⟩ :=
    h.exists_isomorphism hwf hwf' hroots hroots' engine
  refine ⟨⟨?_, ?_⟩, fun a a' ha ha' => ?_⟩
  · rintro ⟨a, ha⟩
    obtain ⟨a', ha', -⟩ := hiso.symm.exists_agrees hwf' hwf hreach' hreach ha
    exact ⟨a', ha'⟩
  · rintro ⟨a', ha'⟩
    obtain ⟨a, ha, -⟩ := hiso.exists_agrees hwf hwf' hreach hreach' ha'
    exact ⟨a, ha⟩
  · obtain ⟨a₀, ha₀, hagree⟩ := hiso.exists_agrees hwf hwf' hreach hreach' ha'
    obtain rfl := Except.ok.inj (ha.symm.trans ha₀)
    refine ⟨fun x hx => ?_, ?_⟩
    · obtain ⟨p, p', hp, hp', hsame⟩ := hagree.own x (φ x) ⟨hx, rfl⟩
      obtain ⟨hxmem, hxmem'⟩ := hagree.isomorphism.mem x (φ x) ⟨hx, rfl⟩
      refine ⟨p, p', ?_, ?_, Workspace.sameContent_renaming_iff.1 hsame⟩
      · rw [padding?_of_mem hwf ha hxmem, hp]
      · rw [padding?_of_mem hwf' ha' hxmem', hp']
    · obtain ⟨l, hperm, hsame⟩ := hagree.exists_perm_actions
      exact ⟨l, hperm, hsame.imp fun b b' => Workspace.copied_of_sameAction⟩

end Engine

/-! ## Two graphs made in another order -/

/-- Whether a renaming makes copies can be checked node by node. -/
theorem Workspace.isomorphic_of_reachable {w w' : Workspace} (hw : w.Built) (hw' : w'.Built)
    {roots nodes roots' nodes' : List NodeRef} {φ : NodeRef → NodeRef}
    (hroots : ∀ x ∈ roots, w.Has x) (hroots' : ∀ x ∈ roots', w'.Has x)
    (hreach : w.reachable roots = .ok nodes) (hreach' : w'.reachable roots' = .ok nodes')
    (hnodes : (nodes.map φ).Perm nodes') (hnodup : nodes'.Nodup)
    (hcopied : ∀ x ∈ nodes, (w'.node (φ x)).op = (w.node x).op ∧
      (w'.node (φ x)).operands = (w.node x).operands.map (Operand.rename φ) ∧
      (w'.node (φ x)).dtype = (w.node x).dtype ∧ (w'.node (φ x)).axes = (w.node x).axes)
    (houtputs : ∀ y, y ∈ roots' ↔ y ∈ roots.map φ) : w.Isomorphic roots φ w' roots' := by
  have hmem : ∀ {x}, x ∈ nodes ↔ w.Reaches roots x := mem_reachable_iff hw.wellFormed hroots hreach
  have hmem' : ∀ {x}, x ∈ nodes' ↔ w'.Reaches roots' x :=
    mem_reachable_iff hw'.wellFormed hroots' hreach'
  constructor
  case bijective =>
    simp only [← hmem, ← hmem', ← hnodes.mem_iff]
    refine ⟨fun x hx => List.mem_map_of_mem hx, ?_, ?_⟩
    · exact fun x hx y hy hxy => List.inj_on_of_nodup_map (hnodes.nodup_iff.2 hnodup) hx hy hxy
    · exact fun y hy => List.mem_map.1 hy
  case copied =>
    intro x hx
    obtain ⟨hop, hoperands, hdtype, haxes⟩ := hcopied x (hmem.2 hx)
    exact ⟨hop ▸ .same _, hoperands, hdtype, haxes⟩
  case outputs => exact fun y => (houtputs y).trans List.mem_map

/-- The nodes of `Workspace.scaledLogarithm` in another order and with other names, together with an
input that nobody reads. -/
def Workspace.logarithmScaled : Workspace :=
  (Workspace.empty.addGraph "logarithm").calls
    [.placeholder 0 "scale" .float32 [⟨8, 1⟩], .placeholder 0 "unused" .float64 [⟨4, 3⟩],
      .placeholder 0 "input" .float32 [⟨16, 15⟩], .reduce (.reduce .sum) ⟨0, 2⟩ false [0],
      .unary (.unary .log) ⟨0, 2⟩, .binary (.binary .mul) (.node ⟨0, 2⟩) (.node ⟨0, 0⟩)]

theorem Workspace.built_logarithmScaled : logarithmScaled.Built :=
  (Built.addGraph "logarithm" .empty).calls (by decide)

theorem Workspace.isomorphic_scaledLogarithm :
    scaledLogarithm.Isomorphic [⟨0, 2⟩, ⟨0, 3⟩, ⟨0, 4⟩]
      (fun x => ⟨0, [2, 0, 5, 4, 3].getD x.index 0⟩) logarithmScaled
      [⟨0, 3⟩, ⟨0, 5⟩, ⟨0, 4⟩, ⟨0, 3⟩] := by
  have hreach : scaledLogarithm.reachable [⟨0, 2⟩, ⟨0, 3⟩, ⟨0, 4⟩] =
      .ok [⟨0, 0⟩, ⟨0, 1⟩, ⟨0, 2⟩, ⟨0, 3⟩, ⟨0, 4⟩] :=
    built_scaledLogarithm.reachable_eq 0 (by decide)
  have hreach' : logarithmScaled.reachable [⟨0, 3⟩, ⟨0, 5⟩, ⟨0, 4⟩, ⟨0, 3⟩] =
      .ok [⟨0, 0⟩, ⟨0, 2⟩, ⟨0, 3⟩, ⟨0, 4⟩, ⟨0, 5⟩] :=
    built_logarithmScaled.reachable_eq 0 (by decide)
  exact isomorphic_of_reachable built_scaledLogarithm built_logarithmScaled (by decide +kernel)
    (by decide +kernel) hreach hreach' (by decide +kernel) (by decide +kernel)
    (by decide +kernel) (by simp)

/-- In either order, the vector is made safe and filled with zeros for the sum, the single lane is
copied, and the product is filled to be stored. -/
theorem Engine.analyses_agree_scaledLogarithm :
    ∃ a a', default.analyze .scaledLogarithm [⟨0, 2⟩, ⟨0, 3⟩, ⟨0, 4⟩] = .ok a ∧
      default.analyze .logarithmScaled [⟨0, 3⟩, ⟨0, 5⟩, ⟨0, 4⟩, ⟨0, 3⟩] = .ok a' ∧
      a'.actions.length = 4 ∧
      ∃ l, l.Perm a'.actions ∧
        List.Forall₂ (Action.Copied fun x => ⟨0, [2, 0, 5, 4, 3].getD x.index 0⟩) a.actions l := by
  obtain ⟨a, ha, hlength⟩ : ∃ a, default.analyze .scaledLogarithm [⟨0, 2⟩, ⟨0, 3⟩, ⟨0, 4⟩] = .ok a ∧
      a.actions.length = 4 :=
    Workspace.built_scaledLogarithm.exists_analyze 0 [⟨0, 0⟩, ⟨0, 1⟩, ⟨0, 2⟩, ⟨0, 3⟩, ⟨0, 4⟩]
      (by decide) (by decide +kernel)
  have hroots : ∀ x ∈ [⟨0, 2⟩, ⟨0, 3⟩, (⟨0, 4⟩ : NodeRef)], x.graph = 0 ∧
      Workspace.scaledLogarithm.Has x := by
    decide
  have hroots' : ∀ x ∈ [⟨0, 3⟩, ⟨0, 5⟩, ⟨0, 4⟩, (⟨0, 3⟩ : NodeRef)], x.graph = 0 ∧
      Workspace.logarithmScaled.Has x := by
    decide
  obtain ⟨hsucceeds, hagree⟩ := analyses_agree_of_isomorphic Workspace.built_scaledLogarithm
    Workspace.built_logarithmScaled hroots hroots' Workspace.isomorphic_scaledLogarithm default
  obtain ⟨a', ha'⟩ := hsucceeds.1 ⟨a, ha⟩
  obtain ⟨-, l, hperm, hsame⟩ := hagree a a' ha ha'
  refine ⟨a, a', ha, ha', ?_, l, hperm, hsame⟩
  rw [← hperm.length_eq, ← hsame.length_eq, hlength]

/-! ## Zeros of either sign -/

/-- A vector that is summed up and whose greatest element is taken. -/
def Workspace.sumThenMax : Workspace :=
  (Workspace.empty.addGraph "reductions").calls
    [.placeholder 0 "x" .float32 [⟨16, 15⟩], .reduce (.reduce .sum) ⟨0, 0⟩ false [0],
      .reduce (.reduce .max) ⟨0, 0⟩ false [0]]

/-- The same the other way round. -/
def Workspace.maxThenSum : Workspace :=
  (Workspace.empty.addGraph "reductions").calls
    [.placeholder 0 "x" .float32 [⟨16, 15⟩], .reduce (.reduce .max) ⟨0, 0⟩ false [0],
      .reduce (.reduce .sum) ⟨0, 0⟩ false [0]]

/-- The lowest value of a platform is a negative zero, and inputs may hold anything. -/
def Engine.negativeZero : Engine :=
  ⟨⟨fun d => .ok ⟨d, .negZero⟩, fun d => .ok ⟨d, .one⟩⟩, false, some .unconstrained⟩

/-- The reduction that is simulated first has its zero written, so the fills are equal as scalars,
but not the same. -/
theorem Engine.fill_ne_of_isomorphic :
    Workspace.sumThenMax.Built ∧ Workspace.maxThenSum.Built ∧
      Workspace.sumThenMax.Isomorphic [⟨0, 1⟩, ⟨0, 2⟩] (Equiv.swap ⟨0, 1⟩ ⟨0, 2⟩) .maxThenSum
        [⟨0, 1⟩, ⟨0, 2⟩] ∧
      ∃ a a', negativeZero.analyze .sumThenMax [⟨0, 1⟩, ⟨0, 2⟩] = .ok a ∧
        negativeZero.analyze .maxThenSum [⟨0, 1⟩, ⟨0, 2⟩] = .ok a' ∧
        ¬∃ l, l.Perm a'.actions ∧
          List.Forall₂ (fun b b' => b'.fill = b.fill.rename (Equiv.swap ⟨0, 1⟩ ⟨0, 2⟩))
            a.actions l := by
  have hbuilt : Workspace.sumThenMax.Built :=
    (Workspace.Built.addGraph "reductions" .empty).calls (by decide)
  have hbuilt' : Workspace.maxThenSum.Built :=
    (Workspace.Built.addGraph "reductions" .empty).calls (by decide)
  have hreach : Workspace.sumThenMax.reachable [⟨0, 1⟩, ⟨0, 2⟩] = .ok [⟨0, 0⟩, ⟨0, 1⟩, ⟨0, 2⟩] :=
    hbuilt.reachable_eq 0 (by decide)
  have hreach' : Workspace.maxThenSum.reachable [⟨0, 1⟩, ⟨0, 2⟩] = .ok [⟨0, 0⟩, ⟨0, 1⟩, ⟨0, 2⟩] :=
    hbuilt'.reachable_eq 0 (by decide)
  have houtputs : ∀ y, y ∈ [⟨0, 1⟩, ⟨0, 2⟩] ↔
      y ∈ [⟨0, 1⟩, ⟨0, 2⟩].map (Equiv.swap (⟨0, 1⟩ : NodeRef) ⟨0, 2⟩) := by
    intro y
    simp only [List.map_cons, List.map_nil, Equiv.swap_apply_left, Equiv.swap_apply_right,
      List.mem_cons, List.not_mem_nil, or_false]
    exact or_comm
  obtain ⟨a, ha, hactions⟩ : ∃ a, negativeZero.analyze .sumThenMax [⟨0, 1⟩, ⟨0, 2⟩] = .ok a ∧
      a.actions = [⟨⟨0, 0⟩, .constant ⟨.float32, .zero⟩, [⟨0, 1⟩, ⟨0, 2⟩]⟩] :=
    hbuilt.exists_analyze 0 [⟨0, 0⟩, ⟨0, 1⟩, ⟨0, 2⟩] (by decide) (by decide +kernel)
  obtain ⟨a', ha', hactions'⟩ : ∃ a, negativeZero.analyze .maxThenSum [⟨0, 1⟩, ⟨0, 2⟩] = .ok a ∧
      a.actions = [⟨⟨0, 0⟩, .constant ⟨.float32, .negZero⟩, [⟨0, 1⟩, ⟨0, 2⟩]⟩] :=
    hbuilt'.exists_analyze 0 [⟨0, 0⟩, ⟨0, 1⟩, ⟨0, 2⟩] (by decide) (by decide +kernel)
  refine ⟨hbuilt, hbuilt', ?_, a, a', ha, ha', ?_⟩
  · exact Workspace.isomorphic_of_reachable hbuilt hbuilt' (by decide +kernel)
      (by decide +kernel) hreach hreach' (by decide +kernel) (by decide +kernel)
      (by decide +kernel) houtputs
  · rw [hactions, hactions']
    rintro ⟨l, hperm, hsame⟩
    rw [List.perm_singleton.1 hperm, List.forall₂_cons, and_iff_left .nil] at hsame
    exact absurd hsame (by decide)

end LanePadding
