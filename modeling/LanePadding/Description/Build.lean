import LanePadding.Description.Order
import LanePadding.Graph.Build
import LanePadding.Scalar.Literal

/-!
# Building described graphs

`Description.build` adds a graph with one node for each definition, in the order of
`Description.order`.  Literals and symbols take the element type of the nodes that stand beside them
in the same group of operands, and that of the definition if there are none.
-/

set_option autoImplicit false

namespace LanePadding

/-! ## Failures -/

/-- Why a definition cannot be built. -/
inductive DefinitionError where
  | name (cause : NameError)
  | scalar (cause : ScalarError)
  | build (cause : BuildError)
  /-- The operator takes another number of inputs. -/
  | arity (op : OpKind) (expected : Int) (got : Nat)
  /-- No element type that can be computed with has this name. -/
  | dtype (text : String)
  /-- Neither a node beside the input nor the definition has an element type for it. -/
  | uninferred (input : String)
  /-- The operator takes nodes only. -/
  | notNode (op : OpKind) (operand : Operand)
  /-- The operator cannot be described. -/
  | undescribed (op : OpKind)

/-- The wording of a failure; nodes are called as in the workspace. -/
def DefinitionError.message (w : Workspace) : DefinitionError → String
  | .name cause => cause.message
  | .scalar cause => cause.message
  | .build cause => cause.message w
  | .arity op expected got =>
    "op " ++ op.name ++ " takes " ++ Text.integerText expected ++ " inputs, got " ++
      Text.integerText got
  | .dtype text => "unknown or unsupported dtype " ++ Text.quote text
  | .uninferred input =>
    "can't infer the dtype of input " ++ Text.quote input ++ ", set the node dtype"
  | .notNode op x => "op " ++ op.name ++ " requires a node input, got " ++ w.operandText x
  | .undescribed op => "op " ++ op.name ++ " not supported in graph descriptions"

/-- Why a description cannot be built. -/
inductive DescriptionError where
  | order (cause : OrderError)
  /-- A definition cannot be built; it is the one at `position` among `count`. -/
  | definition (name : String) (position count : Nat) (cause : DefinitionError)
  | unknownOutput (name : String)

/-- The wording of a failure; nodes are called as in the workspace. -/
def DescriptionError.message (w : Workspace) : DescriptionError → String
  | .order cause => cause.message
  | .definition name i n cause =>
    "while building node " ++ Text.quote name ++ " (" ++ Text.integerText i ++ " out of " ++
      Text.integerText n ++ "): " ++ cause.message w
  | .unknownOutput name => "output node " ++ Text.quote name ++ " not found"

/-! ## Definitions -/

/-- A computation that builds from definitions.  What it added before failing stays. -/
abbrev Describe (ε α : Type) : Type := ExceptT ε (StateM Workspace) α

/-- A builder as part of building a definition. -/
def Describe.ofBuild {α : Type} (b : Build α) : Describe DefinitionError α :=
  ExceptT.adapt DefinitionError.build b

/-- A pure computation as part of building a definition. -/
def Describe.lift {ε δ α : Type} (f : δ → ε) : Except δ α → Describe ε α
  | .ok a => pure a
  | .error e => throw (f e)

open Describe

/-- The names of the nodes built so far. -/
abbrev NodeNames : Type := List (String × NodeRef)

/-- The node built for a name. -/
def NodeNames.find? (names : NodeNames) (name : String) : Option NodeRef := names.lookup name

/-- Reads the name of an element type; letter case is ignored if the name is not found as it is. -/
def DType.ofText? (text : String) : Option DType :=
  (ofName? text <|> ofName? (Text.lower text)).filter isSupported

def parseDType (text : String) : Except DefinitionError DType :=
  match DType.ofText? text with
  | some d => .ok d
  | none => .error (.dtype text)

/-- Reads a literal as a scalar. -/
def parseScalar (d : DType) (text : String) : Except ScalarError Scalar := do
  Scalar.ofDouble d (← d.parseLiteral text)

/-- Reads what padding lanes hold: a word or a literal. -/
def parsePadding (d : DType) (text : String) : Except ScalarError PaddingValue :=
  match Text.lower (Text.trim text) with
  | "any" | "unconstrained" => .ok .unconstrained
  | "dependent" | "tensor_dependent" => .ok .dependent
  | _ => do return .exact (← parseScalar d text)

/-- How many leading inputs share an element type; the others share another one. -/
def OpKind.firstGroup : OpKind → Nat
  | .select => 1
  | _ => 2

/-- The operands of inputs that share an element type, `known` if it is known already. -/
def groupOperands (dtype : String) (names : NodeNames) :
    Option DType → List String → Describe DefinitionError (List Operand)
  | _, [] => return []
  | known, input :: rest => do
    match InputForm.ofText input with
    | .reference name =>
      let x ← lift .build (Operand.ofNode (names.find? name))
      return x :: (← groupOperands dtype names known rest)
    | form =>
      let d ←
        match known with
        | some d => pure d
        | none =>
          if dtype.isEmpty then throw (.uninferred input)
          lift id (parseDType dtype)
      let x ←
        match form with
        | .literal text => lift .scalar ((parseScalar d text).map Operand.scalar)
        | .symbol name => lift .build (Operand.ofSymbol name d)
        | .reference _ => throw (.uninferred input)
      return x :: (← groupOperands dtype names (some d) rest)

/-- The element type of the first node among inputs. -/
def knownDType? (w : Workspace) (names : NodeNames) (inputs : List String) : Option DType :=
  (inputs.findSome? fun input => (InputForm.ofText input).reference?).bind fun name =>
    (names.find? name).map fun r => (w.node r).dtype

/-- The operands of a definition. -/
def NodeDef.operands (d : NodeDef) (op : OpKind) (names : NodeNames) :
    Describe DefinitionError (List Operand) := do
  let w ← get
  let first := d.inputs.take op.firstGroup
  let second := d.inputs.drop op.firstGroup
  let xs ← groupOperands d.dtype names (knownDType? w names first) first
  let ys ← groupOperands d.dtype names (knownDType? w names second) second
  return xs ++ ys

/-- The node that an operand reads. -/
def nodeOperand (op : OpKind) : Operand → Describe DefinitionError NodeRef
  | .node r => pure r
  | x => throw (.notNode op x)

/-- Builds an operator that reads operands. -/
def NodeDef.buildOperator (d : NodeDef) (op : OpKind) (operands : List Operand) :
    Describe DefinitionError NodeRef := do
  match op, operands with
  | .cast, [x] =>
    let r ← nodeOperand op x
    ofBuild (Build.cast r (← lift id (parseDType d.dtype)))
  | .unary _, [x] => ofBuild (Build.unary op (← nodeOperand op x))
  | .binary _, [x, y] => ofBuild (Build.binary op x y)
  | .broadcast, [x] => ofBuild (Build.broadcast (← nodeOperand op x) d.axes)
  | .reduce _, [x] => ofBuild (Build.reduce op (← nodeOperand op x) d.keepDims d.reduceAxes)
  | .compare, [x, y] => ofBuild (Build.compare x y (← lift .name (CompareMode.parse d.mode)))
  | .select, [c, x, y] => ofBuild (Build.select (← nodeOperand op c) x y)
  | .cmpSel, [x, y, t, f] =>
    ofBuild (Build.cmpSel x y (← lift .name (CompareMode.parse d.mode)) t f)
  | op, _ => throw (.undescribed op)

/-- Builds a definition whose references are built already. -/
def NodeDef.build (d : NodeDef) (g : Nat) (names : NodeNames) :
    Describe DefinitionError NodeRef := do
  let op ← lift .name (OpKind.parse d.op)
  if op.arity? ≠ some d.inputs.length then
    throw (.arity op ((op.arity?.map Int.ofNat).getD (-1)) d.inputs.length)
  match op with
  | .placeholder =>
    let t ← lift id (parseDType d.dtype)
    if d.padding.isEmpty then ofBuild (Build.placeholder g d.name t d.axes)
    else
      let p ← lift .scalar (parsePadding t d.padding)
      ofBuild (Build.placeholderWithPadding g d.name (some p) t d.axes)
  | .constant =>
    let t ← lift id (parseDType d.dtype)
    let v ← lift .scalar (parseScalar t d.value)
    ofBuild (do Build.withName (← Build.constant g v d.axes) d.name)
  | op =>
    let operands ← d.operands op names
    let r ← d.buildOperator op operands
    ofBuild (Build.withName r d.name)

/-! ## Descriptions -/

/-- A described graph, built. -/
structure Model where
  graph : Nat
  /-- The node of each definition, the one built last in front. -/
  names : NodeNames
  outputs : List NodeRef

namespace Description

/-- Builds definitions one after the other; the first one is at position `i` among `count`. -/
def buildFrom (g count : Nat) : Nat → NodeNames → List NodeDef → Describe DescriptionError NodeNames
  | _, names, [] => return names
  | i, names, d :: rest => do
    let r ← ExceptT.adapt (DescriptionError.definition d.name i count) (d.build g names)
    buildFrom g count (i + 1) ((d.name, r) :: names) rest

/-- The names of the outputs. -/
def outputNames (d : Description) : List String :=
  if d.outputs.isEmpty then
    let read := d.nodes.flatMap NodeDef.inputs
    (d.nodes.map NodeDef.name).filter (· ∉ read)
  else d.outputs

/-- Finds the nodes with the given names. -/
def findAll (names : NodeNames) (wanted : List String) : Except DescriptionError (List NodeRef) :=
  wanted.mapM fun name =>
    match names.find? name with
    | some r => .ok r
    | none => .error (.unknownOutput name)

/-- Adds the graph that is described. -/
def build (d : Description) : Describe DescriptionError Model := do
  let order ← lift .order d.order
  let g := (← get).graphs.size
  modify fun w => w.addGraph d.name
  let names ← buildFrom g order.length 0 [] (order.map fun i => d.nodes.getD i .blank)
  let outputs ← lift id (findAll names d.outputNames)
  return ⟨g, names, outputs⟩

end Description
end LanePadding
