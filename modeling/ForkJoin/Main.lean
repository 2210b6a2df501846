import ForkJoin.CommandLine

/-!
# The program

Prints what a run leaves, the lines of the main thread before those of its tasks.
-/

open ForkJoin in
/-- Runs the command line of the process and exits with its code; a fault makes it one. -/
def main (argv : List String) : IO UInt32 := do
  let outcome := CommandLine.run {} [] argv
  IO.print outcome.stdout
  for (_, lines) in outcome.tasks do
    IO.print (CommandLine.unlines lines)
  IO.eprint outcome.stderr
  match outcome.exit with
  | .ok code => return code.toUInt32
  | .error e =>
    IO.eprintln e.text
    return 1
