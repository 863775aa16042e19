import LanePadding.Analysis.Basic
import LanePadding.Command.Options
import LanePadding.Description.Build
import LanePadding.Description.Decode
import LanePadding.Text.Table

/-!
# What the command line asks for

The arguments name one file with a description.  The graph described is built and analysed, and its
actions are printed, as a table or line by line.  Nothing is printed unless all of this succeeds.
-/

set_option autoImplicit false

namespace LanePadding
namespace Command

/-! ## Failures -/

/-- Why a command fails. -/
inductive CommandError where
  | usage (cause : UsageError)
  /-- No file or several files were named. -/
  | notOneFile
  | badInputPadding (text : String)
  | unreadable (path : String)
  | parsing (cause : ParseError)
  | building (w : Workspace) (cause : DescriptionError)
  | analysing (w : Workspace) (graph : Nat) (cause : AnalysisError)

namespace CommandError

/-- The exit code tells flags that cannot be read from other failures; asking for help is none. -/
def exitCode : CommandError → Nat
  | .usage .help => 0
  | .usage _ => 2
  | _ => 1

def message : CommandError → String
  | .usage cause => cause.message
  | .notOneFile =>
    "expected exactly one graph description file, set with -graph. See 'padcalc -help'.\n"
  | .badInputPadding text =>
    "invalid -input_padding=" ++ Text.quote text ++ ", valid values are \"zero\" or \"any\"\n"
  | .unreadable path =>
    "Failed to load graph description: failed to read graph description from " ++
      Text.quote path ++ "\n"
  | .parsing cause => "Failed to load graph description: " ++ cause.message ++ "\n"
  | .building w cause => "Failed to load graph description: " ++ cause.message w ++ "\n"
  | .analysing w g cause =>
    "Padding inference of " ++ Text.quote (w.graph g).name ++ " failed: " ++ cause.message w ++ "\n"

end CommandError

/-! ## Requests -/

/-- A file to read, and what to do with its description. -/
structure Request where
  engine : Engine
  path : String
  printGraph : Bool
  plain : Bool

/-- The file named by a flag or else by the only other argument. -/
def filePath (flag : String) : List String → Except CommandError String
  | [] => if flag ≠ "" then .ok flag else .error .notOneFile
  | [arg] => if flag = "" then .ok arg else .error .notOneFile
  | _ => .error .notOneFile

/-- What the padding lanes of inputs hold that declare nothing. -/
def inputPadding (text : String) : Except CommandError (Option PaddingValue) :=
  match Text.lower text with
  | "zero" => .ok none
  | "any" => .ok (some .unconstrained)
  | _ => .error (.badInputPadding text)

/-- Reads the arguments. -/
def Request.ofArguments (args : List String) : Except CommandError Request := do
  let (o, others) ← (Options.ofArguments args).mapError .usage
  let path ← filePath o.graph others
  let padding ← inputPadding o.inputPadding
  return ⟨⟨.default, !o.unpaddedOutputs, padding⟩, path, o.printGraph, o.plain⟩

/-! ## Reports -/

/-- The title over the actions: a line with some room on all four sides. -/
def banner (title : String) : String :=
  let edge := Text.blanks (title.length + 8) ++ "\n"
  edge ++ Text.blanks 4 ++ title ++ Text.blanks 4 ++ "\n" ++ edge

/-- The readers that an action is for. -/
def targetsText (w : Workspace) (a : Action) : String :=
  if a.isOutputFill then "graph output"
  else if a.targets.isEmpty then "all readers"
  else ", ".intercalate (a.targets.map w.nameOf)

/-- The element type and the axes, separated by blanks. -/
def shapeCell (n : Node) : String :=
  n.dtype.name ++ "[" ++ " ".intercalate (n.axes.map Axis.text) ++ "]"

/-- The table of the actions, one in each row. -/
def actionTable (w : Workspace) (a : Analysis) : Table where
  headers := ["#", "Tensor", "Op", "Shape", "Padding", "Fill", "Targets"]
  rows := a.actions.zipIdx.map fun (act, i) =>
    let node := w.node act.tensor
    [Text.integerText i, w.nameOf act.tensor, node.op.kind.name, shapeCell node,
      ((a.padding? act.tensor).map (PaddingValue.text w.nameOf)).getD "",
      act.fill.text w.nameOf, targetsText w act]

/-- The actions under a title that names the graph. -/
def summary (w : Workspace) (a : Analysis) : String :=
  banner ("Graph " ++ Text.quote (w.graph a.graph).name ++ ": " ++
      Text.integerText a.nodes.length ++ " nodes analysed") ++
    if a.actions.isEmpty then "No padding actions required.\n" else (actionTable w a).text

namespace Request

/-- Reads and builds what a file describes; a description without a name has that of its file. -/
def load (r : Request) (contents : Option String) : Except CommandError (Workspace × Model) := do
  let some text := contents | throw (.unreadable r.path)
  let d ← (Description.parse text).mapError .parsing
  let named := if d.name = "" then { d with name := r.path } else d
  match named.build.run.run Workspace.empty with
  | (.error cause, w) => throw (.building w cause)
  | (.ok model, w) => return (w, model)

/-- What is printed for a file with the given contents; none if it cannot be read. -/
def report (r : Request) (contents : Option String) : Except CommandError String := do
  let (w, model) ← r.load contents
  let a ← (r.engine.analyze w model.outputs).mapError (.analysing w model.graph)
  let graph := if r.printGraph then w.graphText model.graph ++ "\n" else ""
  return graph ++ if r.plain then Analysis.listing w.nameOf a.actions else summary w a

end Request

/-! ## Outcomes -/

/-- How a command ends. -/
structure Outcome where
  exitCode : Nat
  output : String
  /-- What is printed on the error stream. -/
  log : String

/-- A failure leaves the output empty. -/
def Outcome.ofResult : Except CommandError String → Outcome
  | .ok output => ⟨0, output, ""⟩
  | .error e => ⟨e.exitCode, "", e.message⟩

end Command
end LanePadding
