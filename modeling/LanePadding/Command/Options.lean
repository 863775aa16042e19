import LanePadding.Text.Integer

/-!
# Options of the command line

Flags stand before the other arguments and begin with one or two dashes.  A value follows an equals
sign or, unless the flag is a switch, is the next argument.  The first argument that is no flag ends
the flags, as does `--`, which is skipped.
-/

set_option autoImplicit false

namespace LanePadding
namespace Command

/-- The flags. -/
inductive Flag where
  /-- List the actions line by line. -/
  | plain
  /-- Do not require outputs to leave zero-filled. -/
  | unpaddedOutputs
  /-- Print the graph before its actions. -/
  | printGraph
  /-- What the padding lanes of inputs hold. -/
  | inputPadding
  /-- The file with the description. -/
  | graph
  /-- How much is logged. -/
  | verbosity
  deriving DecidableEq

namespace Flag

/-- The name without dashes. -/
def name : Flag → String
  | plain => "plain"
  | unpaddedOutputs => "unpadded_outputs"
  | printGraph => "print_graph"
  | inputPadding => "input_padding"
  | graph => "graph"
  | verbosity => "v"

def all : List Flag := [plain, unpaddedOutputs, printGraph, inputPadding, graph, verbosity]

def ofName? (text : String) : Option Flag := all.find? (·.name == text)

/-- Whether the flag is on when it is given without a value. -/
def isSwitch : Flag → Bool
  | plain | unpaddedOutputs | printGraph => true
  | inputPadding | graph | verbosity => false

/-- What the flag is for. -/
def purpose : Flag → String
  | plain => "Print the actions as plain text instead of a table."
  | unpaddedOutputs =>
    "Don't require the outputs of the graph to leave with zero-filled padding lanes."
  | printGraph => "Also print the graph."
  | inputPadding =>
    "Padding assumed for graph inputs that don't declare one: \"zero\" or \"any\" (unconstrained)."
  | graph => "Graph description file (YAML or JSON)."
  | verbosity => "number for the log level verbosity"

end Flag

/-! ## Failures -/

/-- Why arguments cannot be read as flags. -/
inductive UsageError where
  /-- The flags were asked for. -/
  | help
  /-- Dashes that no name follows. -/
  | malformed (arg : String)
  | unknownFlag (name : String)
  | noValue (flag : Flag)
  | badValue (flag : Flag) (value : String)
  deriving DecidableEq

namespace UsageError

/-- All flags with what they are for. -/
def usage : String :=
  "Usage of padcalc:\n" ++
    String.join (Flag.all.map fun f => "  -" ++ f.name ++ "\n    \t" ++ f.purpose ++ "\n")

def message : UsageError → String
  | .help => usage
  | .malformed arg => "bad flag syntax: " ++ arg ++ "\n" ++ usage
  | .unknownFlag name => "flag provided but not defined: -" ++ name ++ "\n" ++ usage
  | .noValue flag => "flag needs an argument: -" ++ flag.name ++ "\n" ++ usage
  | .badValue flag value =>
    "invalid value " ++ Text.quote value ++ " for flag -" ++ flag.name ++ "\n" ++ usage

end UsageError

/-! ## Options -/

/-- What the flags say. -/
structure Options where
  plain : Bool
  unpaddedOutputs : Bool
  printGraph : Bool
  inputPadding : String
  graph : String
  verbosity : Int
  deriving DecidableEq

/-- The options without any flag. -/
def Options.default : Options := ⟨false, false, false, "zero", "", 0⟩

/-- The value of a switch. -/
def truth? (text : String) : Option Bool :=
  if text ∈ ["1", "t", "T", "true", "TRUE", "True"] then some true
  else if text ∈ ["0", "f", "F", "false", "FALSE", "False"] then some false
  else none

/-- A level of logging is a signed 32-bit number. -/
def level? (text : String) : Option Int :=
  (Text.integerOfChars? text.toList).filter fun z => -2147483648 ≤ z ∧ z ≤ 2147483647

namespace Options

/-- Sets what a flag stands for, if its value is of the right form. -/
def set? (o : Options) (flag : Flag) (value : String) : Option Options :=
  match flag with
  | .plain => (truth? value).map fun b => { o with plain := b }
  | .unpaddedOutputs => (truth? value).map fun b => { o with unpaddedOutputs := b }
  | .printGraph => (truth? value).map fun b => { o with printGraph := b }
  | .inputPadding => some { o with inputPadding := value }
  | .graph => some { o with graph := value }
  | .verbosity => (level? value).map fun z => { o with verbosity := z }

/-- Sets what a flag stands for. -/
def set (o : Options) (flag : Flag) (value : String) : Except UsageError Options :=
  match o.set? flag value with
  | some changed => .ok changed
  | none => .error (.badValue flag value)

end Options

/-! ## Arguments -/

/-- The part an argument plays where a flag may stand. -/
inductive Argument where
  | flag (name : String) (value : Option String)
  /-- The end of the flags, itself left out of the other arguments. -/
  | terminator
  /-- The first of the other arguments. -/
  | positional
  | malformed
  deriving DecidableEq

namespace Argument

/-- What follows the dashes. -/
def ofName : List Char → Argument
  | [] | '-' :: _ | '=' :: _ => .malformed
  | cs =>
    let value :=
      match cs.dropWhile (· != '=') with
      | _ :: value => some (String.ofList value)
      | [] => none
    .flag (String.ofList (cs.takeWhile (· != '='))) value

def ofText (text : String) : Argument :=
  match text.toList with
  | ['-', '-'] => .terminator
  | '-' :: '-' :: name => ofName name
  | ['-'] => .positional
  | '-' :: name => ofName name
  | _ => .positional

end Argument

namespace Options

/-- Reads arguments into options; `pending` is a flag whose value is the next argument.  The
arguments after the flags are left. -/
def read (pending : Option Flag) (o : Options) :
    List String → Except UsageError (Options × List String)
  | [] =>
    match pending with
    | some flag => .error (.noValue flag)
    | none => .ok (o, [])
  | arg :: rest =>
    match pending with
    | some flag => do read none (← o.set flag arg) rest
    | none =>
      match Argument.ofText arg with
      | .positional => .ok (o, arg :: rest)
      | .terminator => .ok (o, rest)
      | .malformed => .error (.malformed arg)
      | .flag name value =>
        match Flag.ofName? name, value with
        | some flag, some given => do read none (← o.set flag given) rest
        | some flag, none =>
          if flag.isSwitch then do read none (← o.set flag "true") rest
          else read (some flag) o rest
        | none, _ => .error (if name = "help" ∨ name = "h" then .help else .unknownFlag name)

/-- The options, and the arguments that follow the flags. -/
def ofArguments (args : List String) : Except UsageError (Options × List String) :=
  read none .default args

end Options
end Command
end LanePadding
