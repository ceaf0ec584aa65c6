/-
# A directory as a value

Files and directories below a root, by the names on the way to them.  A path is followed
name by name: a single dot stays, two dots go up, and everything that is passed has to be
a directory.  A name has at most 255 bytes and a path 4095, a NUL ends a path, and an
empty path leads nowhere.  Two dots at the root lead out of it, and so does a slash in
front of a path, to the top of the machine; there, nothing but the directories on the way
is to be found unless it was put there.
-/

import WeightLink.Files.Storage

namespace WeightLink

/-- The files and directories below a root. -/
structure Directory where
  files : List (List String × Bytes)
  /-- The directories other than the root, those above it and the top. -/
  directories : List (List String)
  deriving DecidableEq, Repr

namespace Directory

/-- Nothing. -/
def empty : Directory := ⟨[], []⟩

/-- The place of the top of the machine. -/
def top : List String := ["/"]

/-- Whether a place is the root or above it. -/
def isAbove (place : List String) : Bool := place.all (· = "..")

/-- Whether a place is a directory. -/
def isDirectory (d : Directory) (place : List String) : Bool :=
  isAbove place || place = top || d.directories.contains place

/-- The contents of a file. -/
def file? (d : Directory) (place : List String) : Option Bytes := d.files.lookup place

/-- The longest name, in bytes. -/
def maxNameBytes : Nat := 255

/-- The longest path, in bytes. -/
def maxPathBytes : Nat := 4095

/-- Whether a place is a directory, or else what is in the way. -/
def demand (d : Directory) (place : List String) : Except Path.Obstacle Unit :=
  if d.isDirectory place then .ok ()
  else if (d.file? place).isSome then .error .notDirectory
  else .error .missing

/-- One name further, from a place that has to be a directory. -/
def enter (d : Directory) (place : List String) (name : String) :
    Except Path.Obstacle (List String) := do
  d.demand place
  if maxNameBytes < name.utf8ByteSize then .error .tooLong
  else if name = "" ∨ name = "." then .ok place
  else if name = ".." then
    .ok (if place = top then top else if isAbove place then place ++ [".."] else place.dropLast)
  else .ok (place ++ [name])

/-- The place where a path leads to.  Nothing has to be there, but a path that ends in a
slash leads to nothing but a directory. -/
def locate (d : Directory) (path : String) : Except Path.Obstacle (List String) :=
  let path := terminated path
  if path = "" then .error .missing
  else if maxPathBytes < path.utf8ByteSize then .error .tooLong
  else
    let names := Path.names path
    names.foldlM d.enter (if names.head? = some "" then top else [])

/-- What a path stands for. -/
def read (d : Directory) (path : String) : Storage.Entry :=
  match d.locate path with
  | .error _ => .absent
  | .ok place =>
    if d.isDirectory place then .directory
    else
      match d.file? place with
      | some bytes => .file bytes
      | none => .absent

/-- The directory with a file at a path, if one can be put there. -/
def write (d : Directory) (path : String) (bytes : Bytes) : Option Directory :=
  match d.locate path with
  | .error _ => none
  | .ok place =>
    if d.isDirectory place then none
    else some { d with files := (place, bytes) :: d.files.filter fun f => decide (f.1 ≠ place) }

/-- The directory with a directory at a path. -/
def makeDirectory (d : Directory) (path : String) : Except Path.Obstacle Directory := do
  let place ← d.locate path
  match d.demand place with
  | .error .missing => .ok { d with directories := place :: d.directories }
  | .error obstacle => .error obstacle
  | .ok () => .ok d

/-- The directory as a storage. -/
def storage : Storage (StateM Directory) where
  read path := return (← get).read path
  write path bytes := do
    match (← get).write path bytes with
    | some d => set d; return true
    | none => return false
  makeDirectory path := do
    match (← get).makeDirectory path with
    | .ok d => set d; return .ok ()
    | .error obstacle => return .error obstacle

end Directory
end WeightLink
