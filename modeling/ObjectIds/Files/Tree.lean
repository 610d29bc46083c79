import ObjectIds.Files.Name

/-!
# File trees

A file tree holds regular files, directories and symbolic links.  A place in it is
given by the names that lead there from the root, innermost first, so that the
directories around it are the tails of that list.

Following a path leads to a place, and what is found at the path is what stands there.
The way starts at the root or, for a relative path, in the working directory.  Links
are followed to what they lead to, `..` leads back to the directory around, and only a
directory may be followed by more segments.
-/

namespace ObjectIds

/-- A regular file with its bytes, a directory with its named entries, or a symbolic
link with its target as it is spelled. -/
inductive FileTree where
  | file (content : ByteArray)
  | directory (entries : List (FileName × FileTree))
  | link (target : LinkTarget)

/-- What is found at a path. -/
inductive Entry where
  /-- Nothing has this path. -/
  | missing
  /-- The path cannot be followed, or it leads through something that is not a
  directory, through too many links, or to a name that is too long. -/
  | obstructed
  /-- A regular file. -/
  | file (content : ByteArray)
  /-- A directory. -/
  | directory (entries : List (FileName × FileTree))

/-- What is found at each path. -/
abbrev Files := Path → Entry

namespace Entry

/-- Whether a regular file is found. -/
def isFile : Entry → Bool
  | .file _ => true
  | .missing | .obstructed | .directory _ => false

/-- The text of the regular file that is found, if its bytes encode one. -/
def text? : Entry → Option String
  | .file content => String.fromUTF8? content
  | .missing | .obstructed | .directory _ => none

/-- What is found where a tree stands, or nothing. -/
def ofTree? : Option FileTree → Entry
  | some (.file content) => .file content
  | some (.directory entries) => .directory entries
  | some (.link _) | none => .missing

end Entry

/-- Where a path leads. -/
inductive Destination where
  /-- Nothing has this path. -/
  | missing
  /-- The path leads through something that is not a directory, through too many
  links, or to a name that is too long. -/
  | obstructed
  /-- To the place with these names. -/
  | place (names : List FileName)

namespace FileTree

/-- What stands at a place. -/
def treeAt? (root : List (FileName × FileTree)) : List FileName → Option FileTree
  | [] => some (.directory root)
  | name :: outer =>
      match treeAt? root outer with
      | some (.directory entries) => entries.lookup name
      | some (.file _) | some (.link _) | none => none

/-- The number of links that may be followed on the way along one path. -/
def linkLimit : Nat := 40

/-- Follows segments from the directory at a place, when `links` more links may be
followed. -/
def follow (root : List (FileName × FileTree)) (links : Nat)
    (place segments : List FileName) : Destination :=
  match segments with
  | [] => .place place
  | segment :: rest =>
      if segment = "" ∨ segment = "." then follow root links place rest
      else if segment = ".." then follow root links place.tail rest
      else if FileName.sizeLimit < segment.size then .obstructed
      else
        match treeAt? root (segment :: place) with
        | none => .missing
        | some (.directory _) => follow root links (segment :: place) rest
        | some (.file _) =>
            if rest.isEmpty then .place (segment :: place) else .obstructed
        | some (.link target) =>
            if target.bytes.isEmpty then .missing
            else
              match links with
              | 0 => .obstructed
              | links + 1 =>
                  follow root links (target.start place) (target.segments ++ rest)
termination_by (links, segments.length)

end FileTree

/-- The tree of all files, and the place of the working directory in it. -/
structure FileSystem where
  root : List (FileName × FileTree)
  working : List FileName
  working_isDirectory :
    ∃ entries, FileTree.treeAt? root working = some (.directory entries)

namespace FileSystem

/-- The place at which the way along an absolute or a relative path starts. -/
def start (system : FileSystem) (absolute : Bool) : List FileName :=
  if absolute then [] else system.working

/-- Where a path leads. -/
def follow (system : FileSystem) (path : Path) : Destination :=
  FileTree.follow system.root FileTree.linkLimit (system.start path.isAbsolute)
    (path.segments.map FileName.text)

/-- What a program finds in a file system. -/
def files (system : FileSystem) : Files := fun path =>
  if path.canBeFollowed = false then .obstructed
  else if path.text = "" then .missing
  else
    match system.follow path with
    | .missing => .missing
    | .obstructed => .obstructed
    | .place names => .ofTree? (FileTree.treeAt? system.root names)

end FileSystem

end ObjectIds
