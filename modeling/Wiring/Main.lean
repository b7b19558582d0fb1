import Wiring.CommandLine.Program
/-!
# The entry point

Reads the surroundings of the program, and shows and writes what it is to show and write.
-/

namespace Wiring.CommandLine

/-- The reason that an error gives. -/
def reasonOf : IO.Error → String
  | .noFileOrDirectory .. => missingReason
  | .inappropriateType _ 20 _ => notDirectoryReason
  | .inappropriateType _ 21 _ => directoryReason
  | .permissionDenied _ 13 _ => "Permission denied (os error 13)"
  | .userError _ => "stream did not contain valid UTF-8"
  | e => toString e

/-- What is found under a path. -/
def findFile (path : String) : IO FileContent := do
  try
    return .text (← IO.FS.readFile path)
  catch e =>
    match e with
    | .noFileOrDirectory .. | .inappropriateType _ 20 _ => return .missing (reasonOf e)
    | e => return .unreadable (reasonOf e)

/-- The paths that the program may read. -/
def pathsOf (args : List String) (settingsPath home : Option String) : List String :=
  match Arguments.parse args with
  | .error _ => []
  | .ok i =>
    let catalog :=
      match i.command with
      | .resolve catalog _ _ | .tree catalog _ => catalog
    catalog :: (i.config.toList ++ settingsPath.toList ++ (home.map Settings.inHome).toList)

/-- Whether the output has colours: as the environment wishes, or else on a terminal. -/
def wantsColours : IO Bool := do
  if ((← IO.getEnv "CLICOLOR_FORCE").getD "0") != "0" then return true
  if (← IO.getEnv "NO_COLOR").isSome then return false
  (← IO.getStdout).isTty

/-- Shows the end of the program and gives its exit code. -/
def finish (s : Surroundings) : Ending → IO UInt32
  | .done (.shown text) => do
    IO.print text
    return 0
  | .done (.written path text message) => do
    try
      IO.FS.writeFile path text
      IO.print message
      return 0
    catch e =>
      IO.eprint (writeFailureText s path (reasonOf e))
      return 1
  | .failed text => do
    IO.eprint text
    return 1
  | .misused text => do
    IO.eprint text
    return 2

end Wiring.CommandLine

open Wiring Wiring.CommandLine in
/-- Runs the program. -/
def main (args : List String) : IO UInt32 := do
  let settingsPath ← IO.getEnv "WIREGRAPH_CONFIG"
  let home ← IO.getEnv "HOME"
  let found ← (pathsOf args settingsPath home).mapM fun p => return (p, ← findFile p)
  let surroundings : Surroundings := {
    files := fun p => (found.lookup p).getD (.missing missingReason)
    settingsPath, home
    colours := ← wantsColours }
  finish surroundings (Program.run surroundings args)
