/-
  DependencyScope.Main — the program.

  Reads the words of the command line and the file that they name, prints the outcome, and ends with
  its code.
-/
import DependencyScope.CommandLine.Command

open DependencyScope.CommandLine

/-- The text of a file, if it can be read. -/
def contentsOf (path : String) : IO (Option String) := do
  try return some (← IO.FS.readFile path)
  catch _ => return none

/-- Runs the program on the words of its command line. -/
def main (words : List String) : IO UInt32 := do
  let profile ← IO.getEnv "DEPNS_PROFILE"
  let request := Request.ofWords profile words
  let text ← match Request.path? request with
    | some path => contentsOf path
    | none => pure none
  let outcome := Request.outcome profile (fun _ => text) request
  (← IO.getStdout).putStr outcome.output
  if let some complaint := outcome.complaint then (← IO.getStderr).putStrLn complaint
  return UInt32.ofNat outcome.exitCode
