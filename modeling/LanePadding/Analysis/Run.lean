import LanePadding.Graph.Lanes
import LanePadding.Padding.Transfer

/-!
# The state of an analysis

A run keeps an entry for every node of the graph: what its padding lanes were found to hold, the
settings that consumers required of it, and who reads it.  It also keeps the order in which settings
were made, which is the order of the actions.

`Entry.source?` decides what a consumer reads from a tensor: a constant setting that it required
itself comes first, then an unconditional constant setting, and at last the tensor's own padding
value.  Settings that write position expressions change nothing about what is read.

`Run.record` is the only place where settings are made.  A consumer that requires what the tensor
holds for it already is only noted as relying on it, and equal settings with the same targeting are
one.
-/

set_option autoImplicit false

namespace LanePadding

/-! ## Configuration -/

/-- How graphs are analysed. -/
structure Engine where
  platform : Platform
  /-- Whether outputs with padding lanes must leave zero-filled. -/
  outputPadding : Bool
  /-- What the padding lanes of inputs hold that declare nothing; zeros if none. -/
  inputPadding : Option PaddingValue

/-- Limits of the element types, inputs arriving zero-filled, and outputs leaving zero-filled. -/
def Engine.default : Engine := ⟨.default, true, none⟩

instance : Inhabited Engine := ⟨.default⟩

/-! ## Entries -/

/-- What is known about a node. -/
structure Entry where
  /-- What the padding lanes hold; none before the node is simulated. -/
  padding : Option PaddingValue
  /-- The fills that consumers required, in the order in which they were first required. -/
  settings : List Setting
  /-- The distinct nodes that read this one, in the order of simulation. -/
  consumers : List NodeRef
  /-- The number of distinct consumers, being an output counted as one. -/
  readers : Nat
  deriving DecidableEq

namespace Entry

/-- Nothing is known. -/
def blank : Entry := ⟨none, [], [], 0⟩

instance : Inhabited Entry := ⟨blank⟩

/-- The position of the last element with a property. -/
def lastIndex? {α : Type} (p : α → Bool) : List α → Option Nat
  | [] => none
  | x :: xs =>
    match lastIndex? p xs with
    | some i => some (i + 1)
    | none => if p x then some 0 else none

/-- The setting from which a consumer reads the tensor, if it does not read the tensor's own padding
value; without a consumer, the graph output reads. -/
def source? (e : Entry) (consumer : Option NodeRef) : Option Nat :=
  let required? :=
    consumer.bind fun c => lastIndex? (fun s => s.fill.isConstant && c ∈ s.demandedBy) e.settings
  match required? with
  | some i => some i
  | none => lastIndex? (fun s => s.fill.isConstant && !s.isTargeted) e.settings

/-- What a consumer reads from the padding lanes of the tensor that the entry is about. -/
def read (e : Entry) (tensor : NodeRef) (consumer : Option NodeRef) : Option PaddingValue :=
  match e.source? consumer with
  | some i => e.settings[i]?.map fun s => s.padding tensor
  | none => e.padding

/-- The entry with one setting changed. -/
def modifySetting (e : Entry) (i : Nat) (f : Setting → Setting) : Entry :=
  { e with settings := e.settings.modify i f }

/-- The entry with one more consumer relying on the tensor's own padding value. -/
def addTarget (e : Entry) (consumer : Option NodeRef) : Entry :=
  { e with padding := e.padding.map fun p => p.addTarget consumer }

/-- The entry with one more consumer relying on what it reads already. -/
def rely (e : Entry) (consumer : Option NodeRef) : Entry :=
  match e.source? consumer with
  | some i => e.modifySetting i fun s => s.addDemand consumer s.isTargeted
  | none => e.addTarget consumer

/-- The setting that writes a fill with this targeting. -/
def settingOf? (e : Entry) (fill : Fill) (targeted : Bool) : Option Nat :=
  e.settings.findIdx? fun s => s.fill.equal fill && s.isTargeted == targeted

end Entry

/-! ## Runs -/

/-- A setting in the order in which settings were made. -/
structure Emission where
  tensor : NodeRef
  /-- Position among the settings of the tensor. -/
  setting : Nat
  deriving DecidableEq

/-- The state of an analysis. -/
structure Run where
  /-- What is known about each node of the graph. -/
  entries : Array Entry
  emissions : List Emission

/-- A step of an analysis.  What it changed before failing stays. -/
abbrev RunM (α : Type) : Type := ExceptT RunError (StateM Run) α

/-- Performs a step on a state. -/
def RunM.on {α : Type} (step : RunM α) (r : Run) : Except RunError α × Run :=
  (ExceptT.run step).run r

namespace Run

/-- What is known about a node.  All nodes are of one graph, so the position is enough. -/
def entry (r : Run) (x : NodeRef) : Entry := r.entries.getD x.index .blank

/-- The state with one entry changed. -/
def modifyEntry (r : Run) (x : NodeRef) (f : Entry → Entry) : Run :=
  { r with entries := r.entries.modify x.index f }

/-- What a consumer reads from the padding lanes of a tensor. -/
def read (r : Run) (tensor : NodeRef) (consumer : Option NodeRef) : Option PaddingValue :=
  (r.entry tensor).read tensor consumer

/-- The state before anything is simulated: only the readers of the nodes are known. -/
def initial (w : Workspace) (g : Nat) (nodes roots : List NodeRef) : Run where
  entries := ((w.allNodes g).map fun x =>
    let consumers := nodes.filter fun n => x ∈ (w.node n).inputs
    { Entry.blank with
      consumers
      readers := consumers.length + (if x ∈ roots then 1 else 0) }).toArray
  emissions := []

/-- The state with a consumer added to the setting that writes a fill, which is made if it does not
exist. -/
def write (r : Run) (consumer : Option NodeRef) (tensor : NodeRef) (fill : Fill) (targeted : Bool) :
    Run :=
  let e := r.entry tensor
  match e.settingOf? fill targeted with
  | some i => r.modifyEntry tensor fun e => e.modifySetting i fun s => s.addDemand consumer targeted
  | none =>
    let setting := Setting.addDemand ⟨.normal, fill, [], []⟩ consumer targeted
    { r.modifyEntry tensor fun e => { e with settings := e.settings ++ [setting] } with
      emissions := r.emissions ++ [⟨tensor, e.settings.length⟩] }

/-- The actions that the settings call for, in the order in which the settings were made. -/
def actions (r : Run) : List Action :=
  r.emissions.filterMap fun m =>
    (r.entry m.tensor).settings[m.setting]?.map fun s => ⟨m.tensor, s.fill, s.targets⟩

end Run

namespace RunM

/-- A value that only tensors simulated before have. -/
def need {α : Type} : Option α → RunM α
  | some a => pure a
  | none => throw .notSimulated

/-- The operand at a position. -/
def operand (n : Node) (i : Nat) : RunM Operand :=
  match n.operands[i]? with
  | some x => pure x
  | none => throw (.noOperand i n.operands.length)

/-- A computation that leaves the state alone. -/
def lift {α : Type} (x : Except RunError α) : RunM α :=
  match x with
  | .ok a => pure a
  | .error e => throw e

/-- Makes a consumer, or the graph output, rely on a fill in the padding lanes of a tensor. -/
def record (w : Workspace) (consumer : Option NodeRef) (tensor : NodeRef) (fill : Fill)
    (targeted : Bool) : RunM Unit := do
  match fill with
  | .position _ => modify fun r => r.write consumer tensor fill targeted
  | .constant v =>
    let d := (w.node tensor).dtype
    if v.dtype ≠ d then throw (.wrongFill v tensor d)
    let current ← need ((← get).read tensor consumer)
    if current.isExact v then modify fun r => r.modifyEntry tensor fun e => e.rely consumer
    else modify fun r => r.write consumer tensor fill targeted

/-- Makes a consumer rely on a fill: for all readers of the tensor if it is the only one, and only
for itself otherwise. -/
def demand (w : Workspace) (consumer : Option NodeRef) (tensor : NodeRef) (fill : Fill) :
    RunM Unit := do
  record w consumer tensor fill (decide (1 < ((← get).entry tensor).readers))

end RunM
end LanePadding
