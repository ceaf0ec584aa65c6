/-
# Files, as far as they are needed

A program that reads and writes whole files by path can run on anything that offers the
operations of a `Storage`: the file system of the machine, or a directory that is a value
(`Directory`).  Either sees a path only as far as its first NUL.
-/

import WeightLink.Fault

namespace WeightLink

/-- What a path stands for. -/
inductive Storage.Entry where
  | absent
  | directory
  | file (bytes : Bytes)
  deriving DecidableEq, Repr

/-- Access to files in a monad. -/
structure Storage (m : Type → Type) where
  /-- What a path stands for. -/
  read : String → m Storage.Entry
  /-- Puts bytes at a path instead of what was there, and tells whether it could.  The
  directories on the way have to exist. -/
  write : String → Bytes → m Bool
  /-- Makes a directory at a path, unless it is there, and tells what is in the way. -/
  makeDirectory : String → m (Except Path.Obstacle Unit)

namespace Storage

variable {m : Type → Type} [Monad m]

/-- Reads a whole file, and fails with a given fault when there is none. -/
def readFile (s : Storage m) (path : String) (absent : Fault) : m (Except Fault Bytes) := do
  match ← s.read path with
  | .absent => return .error absent
  | .directory => return .error .directoryRead
  | .file bytes => return .ok bytes

/-- Reads a blob from a file. -/
def readBlob (s : Storage m) (path : String) : m (Except Fault Bytes) :=
  s.readFile path (.blobOpen path)

/-- Makes directories one after the other, up to the first obstacle. -/
def makeDirectories (s : Storage m) : List String → m (Except Path.Obstacle Unit)
  | [] => return .ok ()
  | path :: rest => do
    match ← s.makeDirectory path with
    | .error obstacle => return .error obstacle
    | .ok () => s.makeDirectories rest

/-- Makes the directories on the way to a path.  They are those of the whole path, also
where a NUL ends it early. -/
def makeParents (s : Storage m) (path : String) : m (Except Path.Obstacle Unit) :=
  s.makeDirectories (Path.parents path)

/-- Saves a blob to a file. -/
def saveBlob (s : Storage m) (path : String) (blob : Bytes) : m (Except Fault Unit) := do
  if ← s.write path blob then return .ok () else return .error (.blobSave path)

end Storage
end WeightLink
