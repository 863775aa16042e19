import LanePadding.Axis
import LanePadding.Padding.Basic

/-!
# Graphs of tensor operators

A node computes one tensor from its operands: nodes made before it, immediate scalars, and symbols
that stand for scalars known only at run time.  A graph is the list of its nodes in the order in
which they were made, and a workspace holds any number of graphs.  Nodes refer to each other by
`NodeRef`.

The printed form of a node is its name, its operator with the operands, and its element type and
axes, as in `#3 Exp(#2) Float16[2, 16/15]`; a node without a name of its own is called by its
position.
-/

set_option autoImplicit false

namespace LanePadding

/-! ## Nodes -/

/-- An input of an operator. -/
inductive Operand where
  | node (ref : NodeRef)
  | scalar (value : Scalar)
  | symbol (name : String) (dtype : DType)
  deriving DecidableEq

/-- The node an operand reads, if it is one. -/
def Operand.node? : Operand → Option NodeRef
  | .node r => some r
  | _ => none

/-- The operator that makes a node, with what it needs besides operands. -/
inductive Op where
  /-- An input of the graph, whose padding lanes may be declared to hold a value. -/
  | placeholder (declared : Option PaddingValue)
  /-- A tensor that holds one value in all lanes. -/
  | constant (value : Scalar)
  | unary (fn : UnaryFn)
  | cast
  | binary (fn : BinaryFn)
  | broadcast
  /-- A reduction over axes, in increasing order; `keepDims` leaves a lane in place of each. -/
  | reduce (fn : ReduceFn) (axes : List Nat) (keepDims : Bool)
  | compare (mode : CompareMode)
  | select
  | cmpSel (mode : CompareMode)
  | invalid
  | unknown (code : Int)
  deriving DecidableEq

namespace Op

def kind : Op → OpKind
  | .placeholder _ => .placeholder
  | .constant _ => .constant
  | .unary fn => .unary fn
  | .cast => .cast
  | .binary fn => .binary fn
  | .broadcast => .broadcast
  | .reduce fn _ _ => .reduce fn
  | .compare _ => .compare
  | .select => .select
  | .cmpSel _ => .cmpSel
  | .invalid => .invalid
  | .unknown code => .unknown code

/-- The bare operator of a kind, with nothing set. -/
def ofKind : OpKind → Op
  | .placeholder => .placeholder none
  | .constant => .constant .absent
  | .unary fn => .unary fn
  | .cast => .cast
  | .binary fn => .binary fn
  | .broadcast => .broadcast
  | .reduce fn => .reduce fn [] false
  | .compare => .compare .gt
  | .select => .select
  | .cmpSel => .cmpSel .gt
  | .invalid => .invalid
  | .unknown code => .unknown code

/-- The reduced axes; none unless the operator is a reduction. -/
def reduceAxes : Op → List Nat
  | .reduce _ axes _ => axes
  | _ => []

def keepsDims : Op → Bool
  | .reduce _ _ keep => keep
  | _ => false

/-- The comparison mode, the first one of the table for an operator that does not compare. -/
def mode : Op → CompareMode
  | .compare m => m
  | .cmpSel m => m
  | _ => .gt

end Op

/-- One tensor of a graph. -/
structure Node where
  /-- The name given to the node, empty if none was. -/
  label : String
  op : Op
  operands : List Operand
  dtype : DType
  axes : List Axis
  deriving DecidableEq

namespace Node

/-- What is found where there is no node. -/
def missing : Node := ⟨"", .invalid, [], .invalid, []⟩

instance : Inhabited Node := ⟨missing⟩

def rank (n : Node) : Nat := n.axes.length

/-- The nodes read, in the order of the operands; one read twice is listed twice. -/
def inputs (n : Node) : List NodeRef := n.operands.filterMap Operand.node?

/-- Whether any axis has padding lanes. -/
def hasPadding (n : Node) : Bool := n.axes.any Axis.isPadded

/-- The positions of the axes with padding lanes. -/
def paddedAxes (n : Node) : List Nat :=
  (List.range n.rank).filter fun i => (n.axes.getD i .unit).isPadded

/-- The element type and axes, as printed with a node. -/
def shapeText (n : Node) : String :=
  n.dtype.name ++ "[" ++ ", ".intercalate (n.axes.map Axis.text) ++ "]"

end Node

/-! ## Graphs and workspaces -/

/-- A named list of nodes, in the order in which they were made. -/
structure Graph where
  name : String
  nodes : Array Node

/-- The node at a position. -/
def Graph.node (g : Graph) (index : Nat) : Node := g.nodes.getD index .missing

/-- The graphs in use. -/
structure Workspace where
  graphs : Array Graph

namespace Workspace

def empty : Workspace := ⟨#[]⟩

/-- The graph with this number. -/
def graph (w : Workspace) (g : Nat) : Graph := w.graphs.getD g ⟨"", #[]⟩

/-- The node with this identity. -/
def node (w : Workspace) (r : NodeRef) : Node := (w.graph r.graph).node r.index

/-- The workspace with one more graph, without nodes, at its end. -/
def addGraph (w : Workspace) (name : String) : Workspace := ⟨w.graphs.push ⟨name, #[]⟩⟩

/-- The workspace with one more node at the end of the graph `g`. -/
def push (w : Workspace) (g : Nat) (n : Node) : Workspace :=
  ⟨w.graphs.modify g fun gr => { gr with nodes := gr.nodes.push n }⟩

/-- The workspace with one node changed. -/
def modifyNode (w : Workspace) (r : NodeRef) (f : Node → Node) : Workspace :=
  ⟨w.graphs.modify r.graph fun gr => { gr with nodes := gr.nodes.modify r.index f }⟩

/-- Names a node. -/
def withName (w : Workspace) (r : NodeRef) (label : String) : Workspace :=
  w.modifyNode r fun n => { n with label }

/-- Makes a node its own only operand. -/
def selfLoop (w : Workspace) (r : NodeRef) : Workspace :=
  w.modifyNode r fun n => { n with operands := [.node r] }

/-- How a node is called: by its name, or by its position. -/
def nameOf (w : Workspace) (r : NodeRef) : String :=
  let label := (w.node r).label
  if label.isEmpty then "#" ++ Text.integerText r.index else label

/-- The element type of an operand. -/
def operandDType (w : Workspace) : Operand → DType
  | .node r => (w.node r).dtype
  | .scalar v => v.dtype
  | .symbol _ d => d

/-! ## Printing -/

def operandText (w : Workspace) : Operand → String
  | .node r => w.nameOf r
  | .scalar v => v.dtype.name ++ "(" ++ v.text ++ ")"
  | .symbol name _ => "$" ++ name

/-- What is printed of an operator after its operands. -/
def opDetail? : Op → Option String
  | .constant v => some ("value=" ++ v.text)
  | .reduce _ axes keep =>
    some ("axes=" ++ Text.integerList (axes.map Int.ofNat) ++
      (if keep then ", keep_dims" else ""))
  | .compare m | .cmpSel m => some ("mode=" ++ m.symbol)
  | _ => none

def nodeText (w : Workspace) (r : NodeRef) : String :=
  let n := w.node r
  let parts := n.operands.map w.operandText ++ (opDetail? n.op).toList
  w.nameOf r ++ " " ++ n.op.kind.name ++ "(" ++ ", ".intercalate parts ++ ") " ++ n.shapeText

/-- The names of the operators of a graph, sorted and without repetition. -/
def opNames (g : Graph) : List String :=
  (distinct (g.nodes.toList.map fun n => n.op.kind.name)).mergeSort fun a b => decide (a ≤ b)

/-- The operator names as a list of quoted strings; a graph without nodes has no list at all. -/
def opNamesText (g : Graph) : String :=
  match opNames g with
  | [] => "[]string(nil)"
  | names => "[]string\x7b" ++ ", ".intercalate (names.map Text.quote) ++ "\x7d"

/-- A summary of a graph and its nodes, a line each. -/
def graphText (w : Workspace) (g : Nat) : String :=
  let gr := w.graph g
  let padded := (gr.nodes.toList.filter Node.hasPadding).length
  "Graph " ++ Text.quote gr.name ++ ":\n" ++
    "\t# nodes:\t" ++ Text.integerText gr.nodes.size ++ "\n" ++
    "\tOp types:\t" ++ opNamesText gr ++ "\n" ++
    "\t# padded:\t" ++ Text.integerText padded ++ "\n" ++
    String.join ((List.range gr.nodes.size).map fun i => "\t\t" ++ w.nodeText ⟨g, i⟩ ++ "\n")

end Workspace
end LanePadding
