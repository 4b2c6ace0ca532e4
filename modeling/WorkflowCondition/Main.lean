import WorkflowCondition.Command.Outcome

/-!
# The program

Reads the arguments, the environment and the files that a command needs, and prints its outcome.
-/

open WorkflowCondition

/-- The contents of those of the files that can be read. -/
def readFiles (paths : List String) : IO (List (String × ByteArray)) :=
  paths.filterMapM fun (path : String) => do
    match ← (IO.FS.readBinFile path).toBaseIO with
    | .ok contents => return some (path, contents)
    | .error _ => return none

/-- Runs the command that the arguments stand for. The files it names are read before, so that the
run itself is a function. -/
def main (arguments : List String) : IO UInt32 := do
  let env ← IO.getEnv Command.contextVariable
  let files ← readFiles (((Command.ofArguments? arguments).map Command.files).getD [])
  let outcome := Outcome.ofArguments arguments env fun path => files.lookup path
  IO.print outcome.output
  return outcome.exitCode
