import ObjectIds.Files.Path

/-!
# Failures

A command either answers for everything it was asked about or fails for one cause.
-/

namespace ObjectIds

/-- Why a command cannot be carried out. -/
inductive Failure where
  /-- The manifest cannot be looked up. -/
  | manifestObstructed (path : Path)
  /-- The manifest is not a readable text. -/
  | manifestUnreadable (path : Path)
  /-- The manifest does not say what a manifest must say. -/
  | manifestMalformed (path : Path)
  /-- The recorded ids are not a readable text. -/
  | consumptionUnreadable (path : Path)
  /-- The recorded ids are not given as they must be. -/
  | consumptionMalformed (path : Path)
  /-- There is neither a file nor a directory at a path. -/
  | pathMissing (path : Path)
  /-- A file that was asked for is not a source file. -/
  | notSource (path : Path)
  /-- The entries of a directory cannot be listed. -/
  | directoryUnreadable (path : Path)
  /-- The name of an entry is not a text. -/
  | nameNotText
  /-- A source file is not a readable text. -/
  | sourceUnreadable (path : Path)
deriving DecidableEq, Repr

namespace Failure

/-- The sentence shown for a failure. -/
def message : Failure → String
  | .manifestObstructed path => "Failed to stat manifest '" ++ path.text ++ "'"
  | .manifestUnreadable path => "Failed to read manifest '" ++ path.text ++ "'"
  | .manifestMalformed path => "Failed to parse manifest '" ++ path.text ++ "'"
  | .consumptionUnreadable path =>
      "Failed to read consumption data '" ++ path.text ++ "'"
  | .consumptionMalformed path =>
      "Failed to parse consumption data '" ++ path.text ++ "'"
  | .pathMissing path => "Path '" ++ path.text ++ "' does not exist"
  | .notSource path => "File '" ++ path.text ++ "' is not a .al source file"
  | .directoryUnreadable path => "Failed to read directory '" ++ path.text ++ "'"
  | .nameNotText => "Non-UTF-8 path"
  | .sourceUnreadable path => "Failed to read '" ++ path.text ++ "'"

end Failure

end ObjectIds
