import LanePadding.Axis
import LanePadding.Text.Quoted

/-!
# Descriptions of graphs

A description lists named nodes in any order.  A node refers to the nodes it reads by name; an input
may also be a literal, written after `=`, or a symbol, written after `$`.  Which of the fields of a
definition are used depends on its operator.
-/

set_option autoImplicit false

namespace LanePadding

/-- The description of a node. -/
structure NodeDef where
  name : String
  /-- The name of the operator. -/
  op : String
  /-- The element type of a leaf or a conversion, and of inputs that have none of their own. -/
  dtype : String
  /-- The axes of a leaf, and those that a broadcast fills. -/
  axes : List Axis
  /-- The value of a constant. -/
  value : String
  /-- What the padding lanes of a placeholder hold; empty for the convention for inputs. -/
  padding : String
  inputs : List String
  reduceAxes : List Int
  keepDims : Bool
  /-- The mode of a comparison. -/
  mode : String
  deriving DecidableEq, Repr

/-- A definition with nothing set. -/
def NodeDef.blank : NodeDef := ⟨"", "", "", [], "", "", [], [], false, ""⟩

instance : Inhabited NodeDef := ⟨.blank⟩

/-- The description of a graph. -/
structure Description where
  name : String
  nodes : List NodeDef
  /-- The names of the outputs; if there are none, the nodes that no other node reads. -/
  outputs : List String
  deriving DecidableEq, Repr

/-- A description with nothing set. -/
def Description.blank : Description := ⟨"", [], []⟩

/-- What an input stands for. -/
inductive InputForm where
  | reference (name : String)
  | literal (text : String)
  | symbol (name : String)
  deriving DecidableEq, Repr

namespace InputForm

def ofText (text : String) : InputForm :=
  match text.toList with
  | '=' :: rest => .literal (String.ofList rest)
  | '$' :: rest => .symbol (String.ofList rest)
  | _ => .reference text

/-- The name of the node referred to. -/
def reference? : InputForm → Option String
  | .reference name => some name
  | _ => none

end InputForm

namespace NodeDef

/-- The inputs by what they stand for. -/
def inputForms (d : NodeDef) : List InputForm := d.inputs.map InputForm.ofText

/-- The names of the nodes read; one read twice is listed twice. -/
def references (d : NodeDef) : List String := d.inputForms.filterMap InputForm.reference?

/-- Whether the name of the definition can be told apart from a literal, a symbol and the name of a
node that has none. -/
def hasValidName (d : NodeDef) : Bool :=
  match d.name.toList with
  | [] => false
  | c :: _ => c != '=' && c != '$' && c != '#'

end NodeDef
end LanePadding
