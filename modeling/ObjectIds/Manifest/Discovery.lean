import ObjectIds.Failure
import ObjectIds.Files.Tree
import ObjectIds.Manifest

/-!
# Finding the manifest of an app

An app is a directory that holds a manifest.  The app of a path is found by going up
from it, one name of its spelling after the other, to the first directory with a
manifest.  A path outside every app has the empty manifest.
-/

namespace ObjectIds

namespace Manifest

/-- The name of manifest files. -/
def fileName : String := "app.json"

/-- The path of the manifest in a directory. -/
def pathIn (directory : Path) : Path := directory.join fileName

/-- The directories in which the manifest for a path is looked for, innermost
first. -/
def candidates (files : Files) (start : Path) : List Path :=
  if (files start).isFile then start.ancestors.tail else start.ancestors

/-- The directory of the app that a path belongs to. -/
def discover? (files : Files) (start : Path) : Option Path :=
  (candidates files start).find? fun directory => (files (pathIn directory)).isFile

/-- Reads the manifest at a path. -/
def read (files : Files) (path : Path) : Except Failure Manifest :=
  match (files path).text? with
  | none => .error (.manifestUnreadable path)
  | some text =>
      match ofText? text with
      | none => .error (.manifestMalformed path)
      | some manifest => .ok manifest

/-- Reads the manifest in a directory, if there is one. -/
def find (files : Files) (directory : Path) : Except Failure (Option Manifest) :=
  match files (pathIn directory) with
  | .missing => .ok none
  | .obstructed => .error (.manifestObstructed (pathIn directory))
  | .file _ | .directory _ => (read files (pathIn directory)).map some

/-- Reads the manifest of the app that a path belongs to. -/
def load (files : Files) (start : Path) : Except Failure Manifest :=
  match discover? files start with
  | none => .ok empty
  | some directory => (find files directory).map (·.getD empty)

end Manifest

end ObjectIds
