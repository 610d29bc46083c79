import ObjectIds.Manifest.Discovery
import ObjectIds.Scan
import ObjectIds.SourceFile

/-!
# Scanning source files

Each source file is scanned by itself, from the same symbols: what one file defines is
not defined in another.  If one of the files cannot be read, none is scanned.
-/

namespace ObjectIds

/-- A source file, its text, and what a scan finds in it. -/
structure FileScan where
  file : Path
  source : String
  scan : Scan

namespace FileScan

/-- Scans a source file. -/
def ofSourceFile (symbols : SymbolTable) (file : SourceFile) :
    Except Failure FileScan :=
  file.text.map fun source => ⟨file.path, source, Scan.ofText source symbols⟩

/-- Scans the source files that a path stands for. -/
def listAt (files : Files) (path : Path) (symbols : SymbolTable) :
    Except Failure (List FileScan) := do
  let sources ← SourceFile.listAt files path
  sources.mapM (ofSourceFile symbols)

/-- Scans the source files that a path stands for, from the symbols of the app that
the path belongs to and some more. -/
def listInApp (files : Files) (path : Path) (defines : List String) :
    Except Failure (List FileScan) := do
  let manifest ← Manifest.load files path
  listAt files path (manifest.initialSymbols defines)

end FileScan

end ObjectIds
