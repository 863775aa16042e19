import LanePadding.Command.Request

/-!
# The command line

`main` reads the file that the arguments name, prints the report and ends with its exit code.
-/

set_option autoImplicit false

namespace LanePadding
namespace Command

/-- The contents of a file, if it can be read as text. -/
def contents? (path : String) : IO (Option String) := do
  try
    return some (← IO.FS.readFile path)
  catch _ =>
    return none

/-- Runs the command with the given arguments. -/
def run (args : List String) : IO Outcome := do
  match Request.ofArguments args with
  | .error e => return .ofResult (.error e)
  | .ok r => return .ofResult (r.report (← contents? r.path))

end Command
end LanePadding

def main (args : List String) : IO UInt32 := do
  let outcome ← LanePadding.Command.run args
  IO.print outcome.output
  IO.eprint outcome.log
  return outcome.exitCode.toUInt32
