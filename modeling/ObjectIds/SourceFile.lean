import ObjectIds.Failure
import ObjectIds.Files.Tree

/-!
# Source files

A source file is known by its extension, in any letter case.  A path stands for the
source file that it names, or for all source files below the directory that it names.
Links below that directory are passed over.  Source files are listed in the order of
the names on the way to them, compared one by one, whatever order the entries of a
directory come in.

The way to a file may be too long to be followed.  Such a file can be listed but not
read, and a directory so far away cannot even be listed.  An entry other than a link
whose name is not a text cannot be listed either.
-/

namespace ObjectIds

/-- A source file as it is stored. -/
structure SourceFile where
  path : Path
  content : ByteArray

namespace SourceFile

/-- The extension of source files. -/
def extension : String := "al"

/-- Whether a file with a name is a source file. -/
def isSourceName (name : String) : Bool :=
  (Path.extension? name).any (Text.equalIgnoringCase · extension)

/-- The source files below a directory, each with the names on the way to it.  The
entries are taken one by one, and each directory is gone through where its entry comes.
The first entry that cannot be dealt with is the end of it. -/
def collectBelow (place : Path) :
    List (FileName × FileTree) → Except Failure (List (List String × ByteArray))
  | [] => .ok []
  | (_, .link _) :: entries => collectBelow place entries
  | (.bytes _ _, .file _) :: _ | (.bytes _ _, .directory _) :: _ => .error .nameNotText
  | (.text name, .file content) :: entries => do
      let others ← collectBelow place entries
      return (if isSourceName name then [([name], content)] else []) ++ others
  | (.text name, .directory inner) :: entries => do
      let directory := place.join name
      if directory.canBeFollowed then
        let within ← collectBelow directory inner
        let others ← collectBelow place entries
        return within.map (fun found => (name :: found.1, found.2)) ++ others
      else .error (.directoryUnreadable directory)

/-- Whether the names on the way to one file do not come after those on the way to
another, compared one by one. -/
def inOrder (first second : List String) : Bool := !second.lex first

/-- Source files in the order of the names on the way to them. -/
def sort (found : List (List String × ByteArray)) : List (List String × ByteArray) :=
  found.mergeSort fun first second => inOrder first.1 second.1

/-- The source files that a path stands for. -/
def listAt (files : Files) (path : Path) : Except Failure (List SourceFile) :=
  match files path with
  | .missing | .obstructed => .error (.pathMissing path)
  | .file content =>
      if isSourceName path.name then .ok [⟨path, content⟩] else .error (.notSource path)
  | .directory entries => do
      let found ← collectBelow path entries
      return (sort found).map fun found => ⟨path.below found.1, found.2⟩

/-- The text of a source file. -/
def text (file : SourceFile) : Except Failure String :=
  if file.path.canBeFollowed then
    match String.fromUTF8? file.content with
    | none => .error (.sourceUnreadable file.path)
    | some text => .ok text
  else .error (.sourceUnreadable file.path)

end SourceFile

end ObjectIds
