/-
# The command line

`bdl_verify <weights.bin> <config.json>` verifies a blob and prints the report.  The exit
code is `0` when all hashes match, `1` when one does not, and `2` when there is no report
or its table cannot be written; then the reason is on the error channel.

The program runs on a machine with files and memory, and with a JSON library (`Machine`).
-/

import WeightLink.Files.Storage
import WeightLink.Verify.Run

namespace WeightLink
namespace CommandLine

/-- What the program runs on. -/
structure Machine (m : Type → Type) where
  storage : Storage m
  /-- The library that reads the configuration. -/
  library : Json.Library
  /-- Whether there is memory for a buffer of so many elements. -/
  grants : Nat → Bool

/-- The end of a run of the program. -/
structure Exit where
  code : Nat
  /-- What was printed. -/
  output : String
  /-- What was printed on the error channel. -/
  errors : String
  deriving DecidableEq, Repr

/-- The exit when the arguments are missing. -/
def usage (program : String) : Exit :=
  ⟨2, "", "Usage: " ++ program ++ " <weights.bin> <config.json>\n"⟩

/-- The exit with a fault after some output. -/
def failure (library : Json.Library) (output errors : String) (e : Fault) : Exit :=
  ⟨2, output, errors ++ "[Verify] Error: " ++ e.message library ++ "\n"⟩

/-- The first line of the output. -/
def heading (path : String) (blob : Bytes) (cfg : Verify.Config) : String :=
  "[Verify] " ++ path ++ s!" ({blob.size} bytes), backing=" ++ cfg.backing.name ++ ", decoder="
    ++ cfg.decoder.name ++ "\n"

variable {m : Type → Type} [Monad m]

/-- Writes a report as a table, and gives the line that says so. -/
def writeTable (s : Storage m) (path : String) (r : Verify.Report) : m (Except Fault String) := do
  match ← s.makeParents path with
  | .error obstacle => return .error (.reportParents obstacle (Path.parent path))
  | .ok () =>
    if ← s.write path r.table.toUTF8.data then
      return .ok ("[Verify] CSV written to " ++ path ++ "\n")
    else return .error (.reportOpen path)

/-- The exit with a report, after some output: its table is written if one is asked for. -/
def finish (machine : Machine m) (table output errors : String) (r : Verify.Report) : m Exit := do
  let code := if r.agrees then 0 else 1
  let output := output ++ r.text
  if table = "" then return ⟨code, output, errors⟩
  else
    match ← writeTable machine.storage table r with
    | .error e => return failure machine.library output errors e
    | .ok line => return ⟨code, output ++ line, errors⟩

/-- Verifies a blob under a configuration. -/
def verify (machine : Machine m) (path : String) (blob : Bytes) (cfg : Verify.Config) :
    m Exit := do
  let (result, events) := Verify.runWithin machine.grants blob cfg
  let output := heading path blob cfg ++ Event.lines false events
  let errors := Event.lines true events
  match result with
  | .error e => return failure machine.library output errors e
  | .ok report => finish machine cfg.table output errors report

/-- The configuration in a file. -/
def configOf (library : Json.Library) (file : Except Fault Bytes) : Except Fault Verify.Config :=
  file.bind (Verify.Config.ofText library)

/-- Runs the program, whose name is shown to a user who leaves out an argument.  A NUL
ends an argument. -/
def run (machine : Machine m) (program : String) (args : List String) : m Exit := do
  match args.map terminated with
  | blobPath :: configPath :: _ =>
    let file ← machine.storage.readFile configPath (.configOpen configPath)
    match configOf machine.library file with
    | .error e => return failure machine.library "" "" e
    | .ok cfg =>
      match ← machine.storage.readBlob blobPath with
      | .error e => return failure machine.library "" "" e
      | .ok blob => verify machine blobPath blob cfg
  | _ => return usage program

end CommandLine
end WeightLink
