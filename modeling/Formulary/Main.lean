import Formulary.CommandLine.Run

/-!
# The program

Runs the command line given to it.
-/

def main (args : List String) : IO UInt32 := do
  let outcome := Formulary.CommandLine.run args
  (← IO.getStdout).putStr outcome.stdout
  (← IO.getStderr).putStr outcome.stderr
  return outcome.code.toUInt32
