/-
# The program

The command line on the files of the machine, with a JSON library.
-/

import WeightLink.CommandLine
import WeightLink.Json.Parser

namespace WeightLink

/-- What a path stands for on the machine. -/
def entryAt (path : String) : IO Storage.Entry := do
  try
    let contents ← IO.FS.readBinFile path
    return .file contents.data
  catch
    | .inappropriateType .. => return .directory
    | _ => return .absent

/-- What an error of the machine says to be in the way. -/
def obstacleOf : IO.Error → Path.Obstacle
  | .noFileOrDirectory .. => .missing
  | .inappropriateType .. => .notDirectory
  | .invalidArgument _ _ reason | .permissionDenied _ _ reason => .other reason
  | e => .other (toString e)

/-- Makes a directory on the machine, unless it is there. -/
def makeDirectoryAt (path : String) : IO (Except Path.Obstacle Unit) := do
  try
    IO.FS.createDir path
    return .ok ()
  catch
    | .alreadyExists .. =>
      match ← entryAt path with
      | .directory => return .ok ()
      | _ => return .error .notDirectory
    | e => return .error (obstacleOf e)

/-- The files of the machine. -/
def machineStorage : Storage IO where
  read path := entryAt (terminated path)
  write path bytes := do
    try
      IO.FS.writeBinFile (terminated path) ⟨bytes⟩
      return true
    catch _ => return false
  makeDirectory path := makeDirectoryAt (terminated path)

/-- The machine.  No scratch buffer is kept on it, so there is always memory for one. -/
def machine : CommandLine.Machine IO := ⟨machineStorage, Json.plain, fun _ => true⟩

end WeightLink

/-- Runs the command line and prints what it has to say. -/
def main (args : List String) : IO UInt32 := do
  let exit ← WeightLink.CommandLine.run WeightLink.machine "bdl_verify" args
  (← IO.getStdout).putStr exit.output
  (← IO.getStderr).putStr exit.errors
  return UInt32.ofNat exit.code
