/-
# Paths

A path is names with slashes between them.  The directories on the way to it are the
paths that end at each of its names but the last (`Path.parents`), so `a/b/c.csv` has
`a` and `a/b`.  A path that ends at no name, at a single dot or at two dots leads to a
directory that is there when the one before it is, and is left out.  What keeps a path
from being followed, or a directory from being made, is a `Path.Obstacle`.
-/

import WeightLink.Text.Terminated

namespace WeightLink
namespace Path

/-- What is in the way on a path. -/
inductive Obstacle where
  /-- Something that is passed, or stands where a directory is to be, is a file. -/
  | notDirectory
  /-- The path or one of its names is too long. -/
  | tooLong
  /-- Something that is passed does not exist. -/
  | missing
  /-- The system has a reason of its own. -/
  | other (reason : String)
  deriving DecidableEq, Repr

/-- The reason that an obstacle is. -/
def Obstacle.text : Obstacle → String
  | notDirectory => "Not a directory"
  | tooLong => "File name too long"
  | missing => "No such file or directory"
  | other reason => reason

/-- The names of a path, with an empty one in front of a leading slash and behind a
trailing one. -/
def names (path : String) : List String := path.splitOn "/"

/-- Whether a name stands for a directory next to the one that it is looked up in, and
not for an entry of it. -/
def isStep (name : String) : Bool := name = "" || name = "." || name = ".."

/-- The paths that end at each of some names, when `base` stands in front of them. -/
def through (base : String) : List String → List String
  | [] => []
  | name :: rest =>
    let onward := through (base ++ name ++ "/") rest
    if isStep name then onward else (base ++ name) :: onward

/-- The directories on the way to a path, the outermost first. -/
def parents (path : String) : List String := through "" (names path).dropLast

/-- The part of a path in front of its last name, without the slashes between them. -/
def parent (path : String) : String :=
  String.intercalate "/" ((names path).dropLast.reverse.dropWhile (· = "")).reverse

/-- A path of one name needs no directory. -/
theorem parents_eq_nil {path name : String} (h : names path = [name]) : parents path = [] := by
  simp [parents, h, through]

end Path
end WeightLink
