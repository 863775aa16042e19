import LanePadding.Text.Blank
import LanePadding.Text.Case
import LanePadding.Text.Integer

/-!
# Operators and comparison modes

`OpKind` names the operators a node can be made by.  Every operator has a name, by which
descriptions refer to it regardless of letter case, and a code, its position in the table of
operators; a code from outside the table is kept as `OpKind.unknown`, so that it can be reported.
Comparison modes are treated in the same way.
-/

set_option autoImplicit false

namespace LanePadding

/-! ## Failures -/

/-- Why a name means nothing. -/
inductive NameError where
  /-- No operator has this name in this version of the table. -/
  | unknownOp (text : String) (version : Nat)
  /-- No comparison mode has this symbol or name. -/
  | unknownMode (text : String)
  deriving DecidableEq, Repr

def NameError.message : NameError → String
  | .unknownOp text version =>
    "unknown op type " ++ Text.quote text ++ " (op types version " ++
      Text.integerText version ++ ")"
  | .unknownMode text => "unknown compare mode " ++ Text.quote text

/-! ## Operators -/

/-- Pointwise functions of one operand, other than the conversion between element types. -/
inductive UnaryFn where
  | abs | neg | exp | log | sqrt | rsqrt | reciprocal | relu | tanh
  deriving DecidableEq, Repr, Inhabited

/-- Pointwise functions of two operands. -/
inductive BinaryFn where
  | add | sub | mul | div | max | min
  deriving DecidableEq, Repr, Inhabited

/-- Reductions. -/
inductive ReduceFn where
  | sum | prod | max | min
  deriving DecidableEq, Repr, Inhabited

/-- What kind of operator makes a node. -/
inductive OpKind where
  | invalid
  | placeholder
  | constant
  | unary (fn : UnaryFn)
  | cast
  | binary (fn : BinaryFn)
  | broadcast
  | reduce (fn : ReduceFn)
  | compare
  | select
  | cmpSel
  /-- A code from outside the table. -/
  | unknown (code : Int)
  deriving DecidableEq, Repr, Inhabited

namespace OpKind

/-- The version of the table of operators, which reports of unknown names mention. -/
def tableVersion : Nat := 1

/-- The table of operators: each at the position of its code. -/
def table : List OpKind :=
  [.invalid, .placeholder, .constant,
   .unary .abs, .unary .neg, .unary .exp, .unary .log, .unary .sqrt, .unary .rsqrt,
   .unary .reciprocal, .unary .relu, .unary .tanh, .cast,
   .binary .add, .binary .sub, .binary .mul, .binary .div, .binary .max, .binary .min,
   .broadcast,
   .reduce .sum, .reduce .prod, .reduce .max, .reduce .min,
   .compare, .select, .cmpSel]

def name : OpKind → String
  | .invalid => "Invalid"
  | .placeholder => "Placeholder"
  | .constant => "Constant"
  | .unary .abs => "Abs"
  | .unary .neg => "Neg"
  | .unary .exp => "Exp"
  | .unary .log => "Log"
  | .unary .sqrt => "Sqrt"
  | .unary .rsqrt => "Rsqrt"
  | .unary .reciprocal => "Reciprocal"
  | .unary .relu => "Relu"
  | .unary .tanh => "Tanh"
  | .cast => "Cast"
  | .binary .add => "Add"
  | .binary .sub => "Sub"
  | .binary .mul => "Mul"
  | .binary .div => "Div"
  | .binary .max => "Max"
  | .binary .min => "Min"
  | .broadcast => "Broadcast"
  | .reduce .sum => "ReduceSum"
  | .reduce .prod => "ReduceProd"
  | .reduce .max => "ReduceMax"
  | .reduce .min => "ReduceMin"
  | .compare => "Compare"
  | .select => "Select"
  | .cmpSel => "CmpSel"
  | .unknown _ => "OpType(?)"

/-- The operator with this code. -/
def ofCode (code : Int) : OpKind :=
  if 0 ≤ code then table.getD code.toNat (.unknown code) else .unknown code

/-- The operator with this name, whatever its letter case.  `Invalid` names none. -/
def ofName? (text : String) : Option OpKind :=
  (table.drop 1).find? fun op => Text.equalsNameFold op.name text

/-- Reads the name of an operator. -/
def parse (text : String) : Except NameError OpKind :=
  match ofName? text with
  | some op => .ok op
  | none => .error (.unknownOp text tableVersion)

/-- Whether the operator is pointwise with one operand, conversions included. -/
def isUnary : OpKind → Bool
  | .unary _ | .cast => true
  | _ => false

/-- Whether the operator is pointwise with two operands. -/
def isBinary : OpKind → Bool
  | .binary _ => true
  | _ => false

def isReduce : OpKind → Bool
  | .reduce _ => true
  | _ => false

/-- How many operands the operator takes. -/
def arity? : OpKind → Option Nat
  | .placeholder | .constant => some 0
  | .unary _ | .cast | .reduce _ | .broadcast => some 1
  | .binary _ | .compare => some 2
  | .select => some 3
  | .cmpSel => some 4
  | .invalid | .unknown _ => none

end OpKind

/-! ## Comparison modes -/

/-- The relation a comparison tests. -/
inductive CompareMode where
  | gt | ge | lt | le | eq | ne
  /-- A code from outside the table. -/
  | unknown (code : Int)
  deriving DecidableEq, Repr, Inhabited

namespace CompareMode

/-- The table of modes: each at the position of its code. -/
def table : List CompareMode := [.gt, .ge, .lt, .le, .eq, .ne]

def symbol : CompareMode → String
  | .gt => ">"
  | .ge => ">="
  | .lt => "<"
  | .le => "<="
  | .eq => "=="
  | .ne => "!="
  | .unknown _ => "CompareMode(?)"

/-- The two-letter name. -/
def word : CompareMode → String
  | .gt => "gt"
  | .ge => "ge"
  | .lt => "lt"
  | .le => "le"
  | .eq => "eq"
  | .ne => "ne"
  | .unknown _ => ""

def code : CompareMode → Int
  | .gt => 0
  | .ge => 1
  | .lt => 2
  | .le => 3
  | .eq => 4
  | .ne => 5
  | .unknown c => c

def ofCode (code : Int) : CompareMode :=
  if 0 ≤ code then table.getD code.toNat (.unknown code) else .unknown code

/-- Whether the mode is in the table. -/
def isKnown : CompareMode → Bool
  | .unknown _ => false
  | _ => true

/-- The mode that gives the same answer with the operands swapped: `a > b` is `b < a`. -/
def flip : CompareMode → CompareMode
  | .gt => .lt
  | .ge => .le
  | .lt => .gt
  | .le => .ge
  | m => m

/-- Whether a value always compares true with itself. -/
def isReflexive : CompareMode → Bool
  | .ge | .le | .eq => true
  | _ => false

/-- How a mode is looked up: without surrounding blanks and in lower case. -/
def normalizeText (text : String) : String := Text.lower (Text.trim text)

/-- The mode with this symbol or two-letter name. -/
def ofText? (text : String) : Option CompareMode :=
  table.find? fun m => normalizeText text == m.symbol || normalizeText text == m.word

/-- Reads the symbol or the name of a mode. -/
def parse (text : String) : Except NameError CompareMode :=
  match ofText? text with
  | some m => .ok m
  | none => .error (.unknownMode (normalizeText text))

end CompareMode
end LanePadding
