import EventStore.Cli.Report

/-!
# The node's command line

Reads the command line into node parameters and reports them, or reports why the command line
was refused, with the exit code that goes with it.
-/

open EventStore

/-- Parses the arguments and prints the outcome. -/
def main (args : List String) : IO UInt32 := do
  match Cli.parse args with
  | .ok p =>
    for line in p.summary do IO.println line
    pure 0
  | .error e =>
    if e.isRequested then IO.println e.message else IO.eprintln e.message
    pure e.exitCode
