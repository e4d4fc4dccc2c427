import CopperRoute.Replay

/-!
# The command line

The program takes the path of a scenario and, if wanted, the path of an options
file, and prints the summary of the replay.
-/

open CopperRoute

/-- The text of a file, if it can be read. -/
def CopperRoute.textOfFile (path : String) : IO (Option String) := do
  try
    return some (← IO.FS.readFile path)
  catch _ =>
    return none

def main (arguments : List String) : IO UInt32 := do
  let outcome := Replay.program (← arguments.mapM textOfFile)
  IO.print outcome.output
  return outcome.status.toUInt32
