import LanePadding.Graph.Ref
import LanePadding.Scalar.Basic

/-!
# What padding lanes hold

The padding lanes of a tensor are described by a `PaddingValue`:

* `Content.exact s` — every padding lane holds the scalar `s`;
* `Content.dependent e?` — the lanes are no fixed scalar, but they are computed from real data by
  the very operators that compute the real lanes; the optional position expression says which lanes
  of which tensor they replicate;
* `Content.unconstrained` — the lanes hold anything.

A value also records its *origin*, the tensor whose lanes it describes, which gives unconstrained
lanes an identity, and its *targets*, the consumers that relied on it.

Where the lanes do not hold what a consumer needs, a *fill* is written into them.  A `Setting` is a
fill together with the consumers it is for; one without targets is unconditional and fixes the
tensor for every reader.  An `Action` is a setting as told to the code emitter.
-/

set_option autoImplicit false

namespace LanePadding

/-! ## Position expressions -/

/-- Each lane holds the lane of `source` at the same coordinates, except that on `axes` the
coordinate is zero. -/
structure PositionExpr where
  source : NodeRef
  axes : List Int
  deriving DecidableEq, Repr

/-! ## Padding values -/

/-- What the padding lanes of a tensor hold. -/
inductive Content where
  | exact (value : Scalar)
  | dependent (expr : Option PositionExpr)
  | unconstrained
  /-- A kind of content from outside the table, known only by its code. -/
  | unknown (code : Int)
  deriving DecidableEq

namespace Content

/-- The name of the kind of content. -/
def kindName : Content → String
  | .exact _ => "Exact"
  | .dependent _ => "TensorDependent"
  | .unconstrained => "Unconstrained"
  | .unknown _ => "invalid"

/-- Content of the kind with this code, with nothing else known about it. -/
def ofCode (code : Int) : Content :=
  if code = 0 then .exact .absent
  else if code = 1 then .dependent none
  else if code = 2 then .unconstrained
  else .unknown code

/-- Whether the kind of content is in the table. -/
def isKnown : Content → Bool
  | .unknown _ => false
  | _ => true

/-- The scalar of exact content, and the absent one otherwise. -/
def scalar : Content → Scalar
  | .exact v => v
  | _ => .absent

/-- The position expression, if there is one. -/
def expr? : Content → Option PositionExpr
  | .dependent e => e
  | _ => none

end Content

/-- The content of the padding lanes of a tensor, with its origin and the consumers that relied on
it. -/
structure PaddingValue where
  content : Content
  origin : Option NodeRef
  targets : List NodeRef
  deriving DecidableEq

namespace PaddingValue

/-- A value without origin or targets. -/
def ofContent (c : Content) : PaddingValue := ⟨c, none, []⟩

def exact (v : Scalar) : PaddingValue := ofContent (.exact v)

def dependent : PaddingValue := ofContent (.dependent none)

def unconstrained : PaddingValue := ofContent .unconstrained

/-- Whether the lanes hold exactly `v`. -/
def isExact (p : PaddingValue) (v : Scalar) : Bool :=
  match p.content with
  | .exact w => w.equal v
  | _ => false

/-- Whether both values are provably the same content: equal scalars, or the very same unconstrained
lanes. -/
def sameValue (p q : PaddingValue) : Bool :=
  match p.content, q.content with
  | .exact v, .exact w => v.equal w
  | .unconstrained, .unconstrained => p.origin.isSome && p.origin == q.origin
  | _, _ => false

/-- The value with one more consumer relying on it; nothing changes for the graph output. -/
def addTarget (p : PaddingValue) (consumer : Option NodeRef) : PaddingValue :=
  match consumer with
  | some c => { p with targets := insertLast p.targets c }
  | none => p

/-- The value with nobody relying on it yet. -/
def clone (p : PaddingValue) : PaddingValue := { p with targets := [] }

end PaddingValue

/-! ## Fills, settings and actions -/

/-- What is written into padding lanes. -/
inductive Fill where
  | constant (value : Scalar)
  | position (expr : PositionExpr)
  deriving DecidableEq

namespace Fill

def isConstant : Fill → Bool
  | .constant _ => true
  | .position _ => false

/-- Whether both fills write the same content. -/
def equal : Fill → Fill → Bool
  | .constant v, .constant w => v.equal w
  | .position e, .position e' => e == e'
  | _, _ => false

/-- The content of lanes that hold the fill. -/
def content : Fill → Content
  | .constant v => .exact v
  | .position e => .dependent (some e)

end Fill

/-- How a setting is written. -/
inductive SettingKind where
  /-- The fill goes into all padding lanes. -/
  | normal
  /-- A code from outside the table. -/
  | unknown (code : Int)
  deriving DecidableEq, Repr

namespace SettingKind

def ofCode (code : Int) : SettingKind := if code = 0 then .normal else .unknown code

def name : SettingKind → String
  | .normal => "normal"
  | .unknown _ => "invalid"

end SettingKind

/-- A fill that some consumer requires in a tensor. -/
structure Setting where
  kind : SettingKind
  fill : Fill
  /-- The consumers the fill is for; none if it is for all of them. -/
  targets : List NodeRef
  /-- The consumers that required the fill, those of an unconditional setting included. -/
  demandedBy : List NodeRef
  deriving DecidableEq

namespace Setting

/-- Whether the fill is only for some consumers. -/
def isTargeted (s : Setting) : Bool := !s.targets.isEmpty

/-- The setting with one more consumer requiring it, as one of its targets if `targeted`.  Nothing
changes for the graph output or for a consumer that already required it. -/
def addDemand (s : Setting) (consumer : Option NodeRef) (targeted : Bool) : Setting :=
  match consumer with
  | none => s
  | some c =>
    if c ∈ s.demandedBy then s
    else
      { s with
        demandedBy := s.demandedBy ++ [c]
        targets := if targeted then s.targets ++ [c] else s.targets }

/-- What a consumer finds in the lanes of `tensor` when it reads the setting. -/
def padding (s : Setting) (tensor : NodeRef) : PaddingValue := ⟨s.fill.content, some tensor, []⟩

end Setting

/-- An instruction to write a fill into the padding lanes of a tensor before it is read.  A tensor
among its own targets stands for its store as a graph output. -/
structure Action where
  tensor : NodeRef
  fill : Fill
  targets : List NodeRef
  deriving DecidableEq

/-- Whether the action is only for the store of the tensor as a graph output. -/
def Action.isOutputFill (a : Action) : Bool := a.targets == [a.tensor]

/-! ## Texts

All texts name nodes through the given function. -/

section Texts

variable (nameOf : NodeRef → String)

/-- Names between brackets, separated by commas. -/
def nodeNames (refs : List NodeRef) : String :=
  "[" ++ ", ".intercalate (refs.map nameOf) ++ "]"

def PositionExpr.text (e : PositionExpr) : String :=
  nameOf e.source ++ "[" ++
    ", ".intercalate (e.axes.map fun a => "axis " ++ Text.integerText a ++ " → 0") ++ "]"

def PaddingValue.text (p : PaddingValue) : String :=
  match p.content with
  | .exact v => "Exact(" ++ v.text ++ ")"
  | .dependent (some e) => "TensorDependent(" ++ e.text nameOf ++ ")"
  | .dependent none => "TensorDependent"
  | .unconstrained =>
    match p.origin with
    | some r => "Unconstrained(" ++ nameOf r ++ ")"
    | none => "Unconstrained"
  | .unknown code => "PaddingValue(kind=" ++ Text.integerText code ++ ")"

def Fill.text : Fill → String
  | .constant v => v.text
  | .position e => e.text nameOf

def Setting.text (s : Setting) : String :=
  "Setting(" ++ s.kind.name ++ ", " ++ s.fill.text nameOf ++ ", targets=" ++
    nodeNames nameOf s.targets ++ ")"

def Action.text (a : Action) : String :=
  let fill := "fill " ++ nameOf a.tensor ++ " with " ++ a.fill.text nameOf
  if a.targets.isEmpty then fill else fill ++ " for " ++ nodeNames nameOf a.targets

end Texts

end LanePadding
