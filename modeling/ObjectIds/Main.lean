import ObjectIds.Command.Arguments

/-!
# The command line

The program looks at the paths that its command names, carries the command out on what
it has found there, and has its effects.  Below a directory it reads the source files
only.
-/

namespace ObjectIds

/-- A name that is not a text. -/
def FileName.illegible : FileName := .bytes ⟨#[255]⟩ (by decide)

/-- An entry of a directory with its name, the bytes of source files included.  By the
text for a name that is not a text nothing is found, and what is no file or directory is
passed over like a link. -/
partial def FileTree.load (path name : String) : IO (FileName × FileTree) := do
  let place := (← IO.currentDir) / path
  match ← place.symlinkMetadata.toBaseIO with
  | .error _ => return (.illegible, .file ByteArray.empty)
  | .ok metadata =>
      match metadata.type with
      | .dir =>
          let entries ← (← place.readDir).toList.mapM fun entry =>
            load (path ++ "/" ++ entry.fileName) entry.fileName
          return (name, .directory entries)
      | .file =>
          if SourceFile.isSourceName name then
            return (name, .file (← IO.FS.readBinFile place))
          else return (name, .file ByteArray.empty)
      | _ => return (name, .link ⟨ByteArray.empty⟩)

/-- What is found at a path. -/
def Entry.load (path : Path) : IO Entry := do
  if path.text.isEmpty then return .missing
  let place := (← IO.currentDir) / path.text
  match ← place.metadata.toBaseIO with
  | .error (.noFileOrDirectory _ _ _) => return .missing
  | .error _ => return .obstructed
  | .ok metadata =>
      match metadata.type with
      | .file => return .file (← IO.FS.readBinFile place)
      | .dir =>
          let entries ← (← place.readDir).toList.mapM fun entry =>
            FileTree.load (path.text ++ "/" ++ entry.fileName) entry.fileName
          return .directory entries
      | _ => return .obstructed

/-- Has an effect on the streams of the program. -/
def Command.Effect.emit : Command.Effect → IO Unit
  | .print text => IO.print text
  | .complain text => IO.eprintln text

end ObjectIds

open ObjectIds in
/-- Carries out the command that the arguments ask for. -/
def main (arguments : List String) : IO UInt32 := do
  let paths := ((Command.ofArguments? arguments).map Command.paths).getD []
  let found ← paths.mapM fun path => return (path, ← Entry.load path)
  let files : Files := fun path => (found.lookup path).getD .missing
  let outcome := Command.runArguments files arguments
  outcome.effects.forM Command.Effect.emit
  return outcome.exitCode
